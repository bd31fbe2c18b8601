import NanoEngine.Engine.Step

/-!
# NanoEngine.Router.Cluster — prefill servers, the router and one decode engine

`submit`, `await_migration` and `submit_migrated` of `dlengine/server/openai_server.py`, the hand-over of the router and
the engine process of a decode server.

* Every prefill server is a process with its own `_seq_id_counter`; a server that restarts is another process.
* A prefill request either ends on its server or is handed over once, with a payload that carries its id.
* The router delivers a payload once, at any time and in any order; the decode engine adds what arrives.
* `decode_ids_distinct`: the requests on the decode engine have different ids as long as no two servers use one number
  at the same time.
-/

namespace NanoEngine

open Transition

/-- `_SEQ_ID_BASE`. -/
def seqIdBase : ℕ := 1024

/-- A request by the server that numbered it and its number. -/
structure Ticket where
  server : ℕ
  seqId : ℕ
  deriving DecidableEq

structure Cluster where
  /-- `_seq_id_counter` of every prefill server -/
  counters : ℕ → ℕ
  /-- requests on their prefill server -/
  prefilling : List Ticket
  /-- payloads on their way through the router -/
  payloads : List (Ticket × WireRequestMigrate)
  decode : EngineState
  /-- requests on the decode engine: delivered, not finished and not aborted -/
  decoding : List Ticket

inductive ClusterOp
  | submit (server : ℕ)
  /-- the request ends on its prefill server, or its client leaves -/
  | finishPrefill (ticket : Ticket)
  | handOver (ticket : Ticket) (request : WireRequestMigrate)
  | deliver (ticket : Ticket)
  /-- a payload whose decode node cannot be reached -/
  | lose (ticket : Ticket)
  | step (rows : List (List (List ℤ))) (logprobs : List (List (List ℚ)))
  | abort (seqId : ℕ)

namespace Cluster

def init (config : SchedulerConfig) : Cluster := ⟨fun _ => seqIdBase, [], [], EngineState.init config, []⟩

/-- `add_request_bytes` for a migrated request: `add_sequence` does not ask whether the id is in use. -/
def addMigrated (x : EngineState) (request : WireRequestMigrate) : EngineState :=
  { x with
    sched := x.sched.addSequence (migrateRequestToSequence request)
    live := insert request.seqId x.live }

def next [Xxh3] (x : Cluster) : ClusterOp → Option Cluster
  | .submit server => some { x with
      counters := Function.update x.counters server (x.counters server + 1)
      prefilling := x.prefilling ++ [⟨server, x.counters server⟩] }
  | .finishPrefill ticket =>
    if ticket ∈ x.prefilling then some { x with prefilling := x.prefilling.erase ticket } else none
  | .handOver ticket request =>
    if ticket ∈ x.prefilling ∧ request.seqId = ticket.seqId then some { x with
        prefilling := x.prefilling.erase ticket
        payloads := x.payloads ++ [(ticket, request)] }
    else none
  | .deliver ticket =>
    match x.payloads.find? (fun p => decide (p.1 = ticket)) with
    | none => none
    | some p => some { x with
        payloads := x.payloads.filter (fun p => decide (p.1 ≠ ticket))
        decode := addMigrated x.decode p.2
        decoding := x.decoding ++ [ticket] }
  | .lose ticket => some { x with payloads := x.payloads.filter (fun p => decide (p.1 ≠ ticket)) }
  | .step rows logprobs =>
    if x.decode.sched.hasRunnableWork then
      let decode := x.decode.step rows logprobs
      some { x with decode := decode, decoding := x.decoding.filter (fun t => decode.sched.unfinished t.seqId) }
    else none
  | .abort seqId =>
    let r := x.decode.sched.abortImpl seqId
    some { x with
      decode := { x.decode with sched := r.2, live := if r.1 then x.decode.live.erase seqId else x.decode.live }
      decoding := if r.1 then x.decoding.filter (fun t => decide (t.seqId ≠ seqId)) else x.decoding }

end Cluster

def clusterSystem [Xxh3] (config : SchedulerConfig) : System Cluster ClusterOp where
  initial x := x = Cluster.init config
  next := Cluster.next

/-- A request that arrives at the decode engine has a number that no request of another server has there. -/
def ownNumbers : Cluster → ClusterOp → Bool
  | x, .deliver ticket =>
    x.decoding.all (fun t => decide (t.server = ticket.server) || decide (t.seqId ≠ ticket.seqId))
  | _, _ => true

/-- All requests between their submission and their end. -/
def Cluster.tickets (x : Cluster) : List Ticket := x.prefilling ++ (x.payloads.map (·.1) ++ x.decoding)

/-- Every request is in one place and was numbered by its server. -/
structure ClusterInv (x : Cluster) : Prop where
  nodup : x.tickets.Nodup
  numbered : ∀ t ∈ x.tickets, t.seqId < x.counters t.server
  distinct : (x.decoding.map (·.seqId)).Nodup

namespace ClusterInv

variable {x x' : Cluster}

/-- Requests end or move on. -/
theorem of_sublist (h : ClusterInv x) (hcounters : x'.counters = x.counters) (htickets : x'.tickets.Sublist x.tickets)
    (hdecoding : x'.decoding.Sublist x.decoding) : ClusterInv x' where
  nodup := htickets.nodup h.nodup
  numbered t ht := hcounters ▸ h.numbered t (htickets.subset ht)
  distinct := (hdecoding.map _).nodup h.distinct

theorem submit (h : ClusterInv x) (server : ℕ) : ClusterInv { x with
    counters := Function.update x.counters server (x.counters server + 1)
    prefilling := x.prefilling ++ [⟨server, x.counters server⟩] } := by
  have hmem : ∀ t, t ∈ x.prefilling ++ [⟨server, x.counters server⟩] ++ (x.payloads.map (·.1) ++
    x.decoding) ↔
      t = ⟨server, x.counters server⟩ ∨ t ∈ x.tickets := by
    intro t
    simp only [Cluster.tickets, List.mem_append, List.mem_singleton]
    tauto
  refine ⟨?_, fun t ht => ?_, h.distinct⟩
  · have hperm : (x.prefilling ++ [(⟨server, x.counters server⟩ : Ticket)] ++
      (x.payloads.map Prod.fst ++ x.decoding)).Perm
        ((⟨server, x.counters server⟩ : Ticket) :: x.tickets) := by
      rw [List.append_assoc]
      exact List.perm_middle
    refine hperm.nodup_iff.2 (List.nodup_cons.2 ⟨fun hin => ?_, h.nodup⟩)
    exact lt_irrefl _ (h.numbered _ hin)
  · show t.seqId < Function.update x.counters server (x.counters server + 1) t.server
    rcases (hmem t).1 ht with rfl | ht
    · simp
    · have hlt := h.numbered t ht
      by_cases hserver : t.server = server
      · rw [hserver] at hlt ⊢
        rw [Function.update_self]
        omega
      · rwa [Function.update_of_ne hserver]

theorem handOver (h : ClusterInv x) {ticket : Ticket} {request : WireRequestMigrate} (hmem : ticket ∈ x.prefilling) :
    ClusterInv { x with
      prefilling := x.prefilling.erase ticket
      payloads := x.payloads ++ [(ticket, request)] } := by
  have hperm : (x.prefilling.erase ticket ++ ((x.payloads ++ [(ticket, request)]).map (·.1) ++ x.decoding)).Perm
      x.tickets := by
    rw [List.map_append, List.append_assoc]
    refine (List.perm_append_left_iff _ |>.2 List.perm_middle).trans ?_
    refine List.perm_middle.trans ?_
    rw [← List.cons_append]
    exact (List.perm_cons_erase hmem).symm.append_right _
  exact ⟨hperm.nodup_iff.2 h.nodup, fun t ht => h.numbered t (hperm.subset ht), h.distinct⟩

/-- A delivered request is told from those of its own server by its number, from the others by the guard. -/
theorem deliver (h : ClusterInv x) {ticket : Ticket} {request : WireRequestMigrate}
    (hmem : (ticket, request) ∈ x.payloads) (hguard : ownNumbers x (.deliver ticket) = true) : ClusterInv { x with
      payloads := x.payloads.filter (fun p => decide (p.1 ≠ ticket))
      decode := Cluster.addMigrated x.decode request
      decoding := x.decoding ++ [ticket] } := by
  have htickets : ticket ∈ x.payloads.map (·.1) := List.mem_map_of_mem hmem
  have hparts := List.nodup_append.1 (List.nodup_append.1 h.nodup).2.1
  have hnot : ticket ∉ x.decoding := fun hin => hparts.2.2 _ htickets _ hin rfl
  have hfilter : (x.payloads.filter (fun p => decide (p.1 ≠ ticket))).map (·.1) =
    (x.payloads.map (·.1)).erase ticket := by
    rw [hparts.1.erase_eq_filter, List.filter_map]
    congr 1
    refine List.filter_congr fun p _ => ?_
    by_cases hp : p.1 = ticket <;> simp [hp]
  have hperm : (x.prefilling ++ ((x.payloads.filter (fun p => decide (p.1 ≠ ticket))).map (·.1) ++
      (x.decoding ++ [ticket]))).Perm x.tickets := by
    rw [hfilter]
    refine List.perm_append_left_iff _ |>.2 ?_
    rw [← List.append_assoc]
    refine (List.perm_append_singleton _ _).trans ?_
    rw [← List.cons_append]
    exact (List.perm_cons_erase htickets).symm.append_right _
  refine ⟨hperm.nodup_iff.2 h.nodup, fun t ht => h.numbered t (hperm.subset ht), ?_⟩
  rw [List.map_append, List.map_cons, List.map_nil]
  refine List.Nodup.append h.distinct (List.nodup_singleton _) ?_
  rw [List.disjoint_singleton, List.mem_map]
  rintro ⟨t, ht, hid⟩
  have hown := List.all_eq_true.1 hguard t ht
  simp only [Bool.or_eq_true, decide_eq_true_eq] at hown
  have hserver := hown.resolve_right (not_not.2 hid)
  exact hnot (by rwa [show ticket = t from by cases ticket; cases t; simp_all])

end ClusterInv

section cluster

variable [Xxh3]

theorem cluster_invariant (config : SchedulerConfig) : Invariant (clusterSystem config) ownNumbers ClusterInv where
  initial x hx := by
    cases hx
    exact ⟨List.nodup_nil, fun t ht => (by cases ht), List.nodup_nil⟩
  next x op x' h hguard hx := by
    have hend : ∀ {l : List Ticket}, l.Sublist x.prefilling → ∀ {p : List (Ticket × WireRequestMigrate)},
        p.Sublist x.payloads → ∀ {d : List Ticket}, d.Sublist x.decoding →
          (l ++ (p.map (·.1) ++ d)).Sublist x.tickets := fun hl p hp d hd =>
      hl.append ((hp.map _).append hd)
    simp only [clusterSystem, Cluster.next] at hx
    cases op with
    | submit server =>
      cases hx
      exact h.submit server
    | finishPrefill ticket =>
      dsimp only at hx
      split at hx
      case isTrue =>
        cases hx
        exact h.of_sublist rfl (hend List.erase_sublist (.refl _) (.refl _)) (.refl _)
      case isFalse => cases hx
    | handOver ticket request =>
      dsimp only at hx
      split at hx
      case isTrue hmem =>
        cases hx
        exact h.handOver hmem.1
      case isFalse => cases hx
    | deliver ticket =>
      dsimp only at hx
      split at hx
      case h_1 => cases hx
      case h_2 p hp =>
        cases hx
        have hticket : p.1 = ticket := by simpa using List.find?_some hp
        exact h.deliver (hticket ▸ List.mem_of_find?_eq_some hp) hguard
    | lose ticket =>
      cases hx
      exact h.of_sublist rfl (hend (.refl _) List.filter_sublist (.refl _)) (.refl _)
    | step rows logprobs =>
      dsimp only at hx
      split at hx
      case isTrue =>
        cases hx
        exact h.of_sublist rfl (hend (.refl _) (.refl _) List.filter_sublist) List.filter_sublist
      case isFalse => cases hx
    | abort seqId =>
      cases hx
      have hsub : (if (x.decode.sched.abortImpl seqId).1 then x.decoding.filter (fun t => decide (t.seqId ≠ seqId))
          else x.decoding).Sublist x.decoding := by
        split
        · exact List.filter_sublist
        · exact .refl _
      exact h.of_sublist rfl (hend (.refl _) (.refl _) hsub) hsub

/-- **The requests on the decode engine have different ids** along every run in which no request arrives whose number a
live request of another server has. -/
theorem decode_ids_distinct (config : SchedulerConfig) (x : Cluster)
    (hx : Reachable (clusterSystem config) ownNumbers x) : (x.decoding.map (·.seqId)).Nodup :=
  ((cluster_invariant config).holds hx).distinct

end cluster

/-! ### Two requests on their way to one decode engine -/

section evaluated

attribute [local instance] codeHash

def twoSeqsConfig : SchedulerConfig :=
  { maxNumSeqs := 2, maxNumBatchedTokens := 8, maxModelLen := 8, numKvcacheBlocks := 4, kvcacheBlockSize := 4,
    mode := .decode }

/-- Two requests of three tokens on the servers `a` and `b`, handed over and delivered one after the other. -/
def twoRequests (a b : Ticket) : List ClusterOp :=
  let payload (t : Ticket) := sequenceToMigrationRequest
    { Sequence.new t.seqId [1, 2, 3] {} with status := .toBeMigrated }
  [.submit a.server, .submit b.server, .handOver a (payload a), .handOver b (payload b), .deliver a, .deliver b]

/-- The second request of a server has the next number. -/
theorem decode_ids_distinct_one_server : ∃ x, Reachable (clusterSystem twoSeqsConfig) ownNumbers x ∧
    x.decoding = [⟨0, 1024⟩, ⟨0, 1025⟩] ∧ (x.decoding.map (·.seqId)).Nodup := by
  obtain ⟨x, hx, hP⟩ := Reachable.exists_of_run (T := clusterSystem twoSeqsConfig) (G := ownNumbers)
    (P := fun x => decide (x.decoding = [⟨0, 1024⟩, ⟨0, 1025⟩])) (s := Cluster.init twoSeqsConfig)
    (twoRequests ⟨0, 1024⟩ ⟨0, 1025⟩) rfl (by decide +kernel)
  exact ⟨x, hx, of_decide_eq_true hP, decode_ids_distinct twoSeqsConfig x hx⟩

/-- The first requests of two servers have one number: on the decode engine the second one takes the place of the first.
-/
theorem not_decode_ids_distinct : ¬ ∀ (config : SchedulerConfig) (x : Cluster),
    Reachable (clusterSystem config) always x → (x.decoding.map (·.seqId)).Nodup := by
  intro h
  obtain ⟨x, hx, hP⟩ := Reachable.exists_of_run (T := clusterSystem twoSeqsConfig) (G := always)
    (P := fun x => decide (x.decoding.map (·.seqId) = [1024, 1024])) (s := Cluster.init twoSeqsConfig)
    (twoRequests ⟨0, 1024⟩ ⟨1, 1024⟩) rfl (by decide +kernel)
  have hnodup := h twoSeqsConfig x hx
  rw [of_decide_eq_true hP] at hnodup
  simp at hnodup

end evaluated

end NanoEngine
