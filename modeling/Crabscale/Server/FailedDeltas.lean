import Crabscale.Server.Stream

/-!
# Updates that fail

`build_delta` changes the record of what the session was sent before steps that can fail: the reads
of a policy update, the encoding of the frame and its transmission. The stream goes on with the next
batch, so the record may describe an update that the client never saw.

Here the calls of the store fail as a schedule says, and `MapStream.handleBatch` is the step with
the record that each way to fail leaves behind. `failed_delta_kept_iff` says when nothing is lost.
-/

namespace Crabscale.Control.ControlPlane

open Rust Proto Policy Interaction

variable (cp : ControlPlane)

def ownRow (sessionNodeId : Nat) : ControlM Node := do
  match ← store (.getNodeById sessionNodeId) with
  | none => throw .notFound
  | some selfNode => return selfNode

def readPeers (sessionNodeId : Nat) (batch : ChangeBatch) (sent : SessionPeers)
    (clientVersion : Nat) : ControlM (MapResponse × Node × PeerDeltas × SessionPeers) := do
  let response ← cp.namedParts batch
  let selfNode ← ownRow sessionNodeId
  let (deltas, sent) ← cp.computePeerDelta selfNode sent clientVersion
  return (response, selfNode, deltas, sent)

/-- `buildDelta` with the session's record that it leaves behind, whether it fails or not. -/
def buildDeltaTracked (sessionNodeId : Nat) (batch : ChangeBatch) (sent : SessionPeers)
    (clientVersion : Nat) : ControlM (Except ControlError (Option MapResponse) × SessionPeers) := do
  if !batch.needsPeerRescan then
    let response ← (cp.namedParts batch).attempt
    return (response.map nonEmpty, sent)
  match ← (cp.readPeers sessionNodeId batch sent clientVersion).attempt with
  | .error error => return (.error error, sent)
  | .ok (response, selfNode, deltas, sent) =>
    if batch.hasPolicy then
      let response ← (cp.policyDelta selfNode clientVersion deltas response).attempt
      return (response.map some, sent)
    else return (.ok (nonEmpty (peerDelta batch deltas response)), sent)

end Crabscale.Control.ControlPlane

namespace Crabscale.Server

open Rust Proto Policy Interaction Interaction.Program
open Control Control.ControlPlane

/-! ## The record is left behind -/

section Tracked

variable {cp : ControlPlane} {σ : Type} {h : Handler signature σ} {s s' : σ} {nodeId version : Nat}
  {batch : ChangeBatch} {sent sent' : SessionPeers}

/-- The outcome of `buildDelta`, which returns the record only with an update. -/
def untracked : Except ControlError (Except ControlError (Option MapResponse) × SessionPeers) →
    Except ControlError (Option MapResponse × SessionPeers)
  | .ok (.ok response, sent) => .ok (response, sent)
  | .ok (.error error, _) => .error error
  | .error error => .error error

theorem build_delta_eq_tracked :
    (cp.buildDelta nodeId batch sent version).run h s =
      (untracked ((cp.buildDeltaTracked nodeId batch sent version).run h s).1,
        ((cp.buildDeltaTracked nodeId batch sent version).run h s).2) := by
  unfold buildDelta buildDeltaTracked
  cases hbatch : batch.needsPeerRescan with
  | false =>
    simp only [Bool.not_false, if_true, run_bind, run_attempt]
    rcases (cp.namedParts batch).run h s with ⟨error | response, s₁⟩ <;> rfl
  | true =>
    simp only [Bool.not_true, Bool.false_eq_true, if_false, run_bind, run_attempt,
      readPeers, ownRow]
    rcases (cp.namedParts batch).run h s with ⟨error | response, s₁⟩
    · rfl
    dsimp only
    rcases (store (.getNodeById nodeId)).run h s₁ with ⟨error | row, s₂⟩
    · rfl
    cases row with
    | none => rfl
    | some own =>
      simp only [run_pure, run_bind]
      rcases (cp.computePeerDelta own sent version).run h s₂ with ⟨error | read, s₃⟩
      · rfl
      dsimp only
      split
      · simp only [run_bind, run_attempt]
        rcases (cp.policyDelta own version read.1 response).run h s₃ with
          ⟨error | built, s₄⟩ <;> rfl
      · rfl

end Tracked

/-! ## Failures of the store -/

def refuseStore (error : StoreError) : (c : Call) → Option (signature.Answer c)
  | .store _ => some (.error error)
  | .memory _ | .env _ => none

def failing (error : StoreError) : Handler signature (World × List Bool) :=
  faulty handler (refuseStore error)

section Queries

variable (cp : ControlPlane) (error : StoreError)

theorem queries_store {c : StoreCall} (hread : ∀ db, (c.exec db).2 = db) :
    (store c).Queries handler (refuseStore error) := by
  refine ⟨fun w => ?_, fun answer hanswer => ?_, fun answer => ?_⟩
  · exact congrArg (fun db => { w with db }) (hread w.db)
  · cases hanswer
    exact ⟨_, rfl⟩
  · cases answer <;> trivial

theorem queries_memory {c : MemoryCall} (hread : ∀ w, (c.exec w).2 = w) :
    (memory c).Queries handler (refuseStore error) :=
  queries_perform (S := signature) (c := Call.memory c) hread rfl

theorem queries_list_nodes : (store .listNodes).Queries handler (refuseStore error) :=
  queries_store error fun _ => rfl

theorem queries_compile_node (node : Node) :
    (ControlPlane.compileNode node).Queries handler (refuseStore error) := by
  refine Queries.bind ?_ fun _ => queries_pure _
  unfold nodeOwnerLogin
  cases node.userId with
  | none => exact queries_pure none
  | some userId => exact (queries_store error fun _ => rfl).bind fun _ => queries_pure _

theorem queries_compile_nodes : ControlPlane.compileNodes.Queries handler (refuseStore error) :=
  (queries_list_nodes error).bind fun _ => Queries.mapM (queries_compile_node error)

theorem queries_effective_approved_routes (node : Node) :
    (cp.effectiveApprovedRoutes node).Queries handler (refuseStore error) :=
  (queries_compile_node error node).bind fun _ => queries_pure _

theorem queries_named_parts (batch : ChangeBatch) :
    (cp.namedParts batch).Queries handler (refuseStore error) := by
  have hdns : cp.buildDnsConfig.Queries handler (refuseStore error) := by
    refine (queries_memory error fun _ => rfl).bind fun records => ?_
    dsimp only
    split
    · exact queries_pure none
    · exact (queries_list_nodes error).bind fun _ => queries_pure _
  unfold namedParts dnsPart derpPart
  refine Queries.bind ?_ fun _ => Queries.bind ?_ fun _ => queries_pure _
  · split
    · exact hdns
    · exact queries_pure none
  · split
    · exact (queries_memory error fun _ => rfl).bind fun _ => queries_pure _
    · exact queries_pure none

theorem queries_compute_peer_delta (node : Node) (sent : SessionPeers) (version : Nat) :
    (cp.computePeerDelta node sent version).Queries handler (refuseStore error) := by
  refine (queries_compile_nodes error).bind fun _ => (queries_list_nodes error).bind fun _ =>
    Queries.bind (Queries.mapM fun stored => ?_) fun _ => queries_pure _
  refine Queries.bind ?_ fun _ => queries_pure _
  exact (queries_memory error fun _ => rfl).bind fun _ =>
    (queries_effective_approved_routes cp error stored).bind fun _ => queries_pure _

theorem queries_read_peers (nodeId : Nat) (batch : ChangeBatch) (sent : SessionPeers)
    (version : Nat) :
    (cp.readPeers nodeId batch sent version).Queries handler (refuseStore error) := by
  refine (queries_named_parts cp error batch).bind fun _ => Queries.bind ?_ fun own =>
    (queries_compute_peer_delta cp error own sent version).bind fun _ => queries_pure _
  refine (queries_store error fun _ => rfl).bind fun row => ?_
  cases row with
  | none => exact queries_throw _
  | some own => exact queries_pure own

theorem queries_policy_delta (node : Node) (version : Nat) (deltas : PeerDeltas)
    (response : MapResponse) :
    (cp.policyDelta node version deltas response).Queries handler (refuseStore error) := by
  have hnodes := queries_compile_nodes error
  refine Queries.bind (hnodes.bind fun _ => queries_pure _) fun _ =>
    Queries.bind (hnodes.bind fun _ => queries_pure _) fun _ =>
      Queries.bind ?_ fun _ => queries_pure _
  refine (queries_effective_approved_routes cp error node).bind fun _ => ?_
  split
  · exact queries_pure _
  · exact hnodes.bind fun _ => queries_pure _

theorem queries_build_delta (nodeId : Nat) (batch : ChangeBatch) (sent : SessionPeers)
    (version : Nat) :
    (cp.buildDelta nodeId batch sent version).Queries handler (refuseStore error) := by
  refine (queries_named_parts cp error batch).bind fun response => ?_
  split
  · exact queries_pure _
  refine (queries_store error fun _ => rfl).bind fun row => ?_
  cases row with
  | none => exact queries_throw _
  | some own =>
    refine (queries_compute_peer_delta cp error own sent version).bind fun read => ?_
    dsimp only
    split
    · exact (queries_policy_delta cp error own version _ response).bind fun _ => queries_pure _
    · exact queries_pure _

end Queries

/-! ## One batch -/

/-- A batch as it reaches a stream, with the server, its state and what fails at that moment. -/
structure Arrival where
  server : ControlPlane
  world : World
  batch : ChangeBatch
  -- Which calls of the store fail, and with which error.
  faults : List Bool
  error : StoreError
  -- Whether the connection accepts the frame.
  sends : Bool

/-- What became of a batch. -/
inductive Outcome where
  | idle
  | sent
  | failed (error : ControlError)
  | unencoded (error : ControlError)
  | closed
  deriving DecidableEq

namespace Outcome

def lost : Outcome → Bool
  | failed _ | unencoded _ => true
  | idle | sent | closed => false

def reached : Outcome → Bool
  | idle | sent => true
  | failed _ | unencoded _ | closed => false

end Outcome

namespace MapStream

/-- `onBatch` with the failures of an arrival. -/
def handleBatch (m : MapStream) (a : Arrival) : Outcome × MapStream :=
  if a.batch.events = [] then (.idle, m)
  else
    match ((a.server.buildDeltaTracked m.nodeId a.batch m.lastSent m.clientVersion).run
        (failing a.error) (a.world, a.faults)).1 with
    | .error error => (.failed error, m)
    | .ok (.error error, lastSent) => (.failed error, { m with lastSent })
    | .ok (.ok none, lastSent) => (.idle, { m with lastSent })
    | .ok (.ok (some response), lastSent) =>
      match a.server.ext.encodeError response m.compress with
      | some error => (.unencoded error, { m with lastSent })
      | none =>
        if a.sends then (.sent, { m with lastSent, held := m.held.receive response })
        else (.closed, { m with lastSent })

def readsPeers (m : MapStream) (a : Arrival) : Bool :=
  a.batch.needsPeerRescan &&
    ((a.server.readPeers m.nodeId a.batch m.lastSent m.clientVersion).run (failing a.error)
      (a.world, a.faults)).1.isOk

end MapStream

/-- If the current peers are read, they are the ones that were sent. -/
def NothingNew (m : MapStream) (a : Arrival) : Prop :=
  m.readsPeers a = true → ∀ next, currentPeers a.server m a.world = some next →
    ∀ id : Nat, (next[id]?).map Prod.fst = m.lastSent.peers[id]?

section Batch

variable {m : MapStream} {a : Arrival}

theorem read_peers_ok {read : MapResponse × Node × PeerDeltas × SessionPeers}
    (hread : ((a.server.readPeers m.nodeId a.batch m.lastSent m.clientVersion).run
      (failing a.error) (a.world, a.faults)).1 = .ok read) :
    ∃ own, a.world.db.getNodeById m.nodeId = some own ∧
      read.2.2.2 = (a.server.peerDeltaOf a.world own m.lastSent m.clientVersion).2 := by
  have hok := (queries_read_peers a.server a.error _ _ _ _).run_eq_ok hread
  unfold readPeers ownRow at hok
  rw [run_bind_ok handler (reads_named_parts a.server a.batch a.world), bind_assoc,
    run_bind_ok handler (reads_get_node_by_id m.nodeId a.world)] at hok
  dsimp only at hok
  cases hrow : a.world.db.getNodeById m.nodeId with
  | none =>
    rw [hrow] at hok
    cases hok
  | some own =>
    rw [hrow] at hok
    dsimp only at hok
    rw [pure_bind, run_bind_ok handler
      (reads_compute_peer_delta a.server own m.lastSent m.clientVersion a.world)] at hok
    cases hok
    exact ⟨own, rfl, rfl⟩

/-- The record that is left behind: the current peers once they were read, and else the one
before. -/
theorem tracked_record (m : MapStream) (a : Arrival) :
    ∃ result sent,
      ((a.server.buildDeltaTracked m.nodeId a.batch m.lastSent m.clientVersion).run
        (failing a.error) (a.world, a.faults)).1 = .ok (result, sent) ∧
      (m.readsPeers a = false → sent = m.lastSent) ∧
      (m.readsPeers a = true → ∃ own, a.world.db.getNodeById m.nodeId = some own ∧
        sent = (a.server.peerDeltaOf a.world own m.lastSent m.clientVersion).2) := by
  unfold MapStream.readsPeers buildDeltaTracked
  cases hbatch : a.batch.needsPeerRescan with
  | false =>
    simp only [Bool.not_false, if_true, run_bind, run_attempt, Bool.false_and]
    exact ⟨_, _, rfl, fun _ => rfl, fun h => by cases h⟩
  | true =>
    simp only [Bool.not_true, Bool.false_eq_true, if_false, run_bind, run_attempt, Bool.true_and]
    cases hread : ((a.server.readPeers m.nodeId a.batch m.lastSent m.clientVersion).run
        (failing a.error) (a.world, a.faults)).1 with
    | error error => exact ⟨_, _, rfl, fun _ => rfl, fun h => by cases h⟩
    | ok read =>
      dsimp only
      split
      · simp only [run_bind, run_attempt]
        exact ⟨_, _, rfl, fun h => (by cases h), fun _ => read_peers_ok hread⟩
      · exact ⟨_, _, rfl, fun h => (by cases h), fun _ => read_peers_ok hread⟩

theorem build_delta_of_tracked {response : Option MapResponse} {sent : SessionPeers}
    (htracked : ((a.server.buildDeltaTracked m.nodeId a.batch m.lastSent m.clientVersion).run
      (failing a.error) (a.world, a.faults)).1 = .ok (.ok response, sent)) :
    (exec (a.server.buildDelta m.nodeId a.batch m.lastSent m.clientVersion) a.world).1 =
      .ok (response, sent) := by
  have hbuilt : ((a.server.buildDelta m.nodeId a.batch m.lastSent m.clientVersion).run
      (failing a.error) (a.world, a.faults)).1 = .ok (response, sent) := by
    rw [build_delta_eq_tracked, htracked]
    rfl
  exact (queries_build_delta a.server a.error _ _ _ _).run_eq_ok hbuilt

theorem handle_batch_lost (hlost : (m.handleBatch a).1.lost = true) :
    ∃ lastSent, (m.handleBatch a).2 = { m with lastSent } ∧
      (m.readsPeers a = false → lastSent = m.lastSent) ∧
      (m.readsPeers a = true → ∃ own, a.world.db.getNodeById m.nodeId = some own ∧
        lastSent = (a.server.peerDeltaOf a.world own m.lastSent m.clientVersion).2) := by
  obtain ⟨result, sent, htracked, hrecord⟩ := tracked_record m a
  refine ⟨sent, ?_, hrecord⟩
  unfold MapStream.handleBatch at hlost ⊢
  split at hlost
  · cases hlost
  · rename_i hevents
    rw [if_neg hevents, htracked]
    rw [htracked] at hlost
    obtain error | response := result
    · rfl
    · cases response with
      | none => rfl
      | some response =>
        dsimp only at hlost ⊢
        cases hencode : a.server.ext.encodeError response m.compress with
        | some error => rfl
        | none =>
          rw [hencode] at hlost
          dsimp only at hlost
          split at hlost
          · cases hlost
          · cases hlost

/-- An update that is not sent leaves a record of what the client holds if and only if there was
nothing new. -/
theorem Synced.lost_iff (h : Synced m) (hlost : (m.handleBatch a).1.lost = true) :
    Synced (m.handleBatch a).2 ↔ NothingNew m a := by
  obtain ⟨lastSent, hafter, hkept, hread⟩ := handle_batch_lost hlost
  rw [hafter]
  cases hreads : m.readsPeers a with
  | false =>
    rw [hkept hreads]
    exact iff_of_true h fun htrue => by rw [hreads] at htrue; cases htrue
  | true =>
    obtain ⟨own, hown, hsent⟩ := hread hreads
    have hpeers (id : Nat) : lastSent.peers[id]? =
        ((a.server.nextPeers a.world own m.clientVersion)[id]?).map Prod.fst := by
      rw [hsent]
      exact sent_peers_diff_session id
    have hcurrent : currentPeers a.server m a.world =
        some (a.server.nextPeers a.world own m.clientVersion) := by
      rw [currentPeers, hown, Option.map_some]
    constructor
    · intro hsynced _ next hnext id
      cases hcurrent.symm.trans hnext
      rw [← hpeers, ← h.same, show m.held.peers = lastSent.peers from hsynced.same]
    · intro hnew
      have hsame : lastSent.peers = m.lastSent.peers := by
        refine Std.ExtTreeMap.ext_getElem? fun id => ?_
        rw [hpeers, hnew hreads _ hcurrent]
      exact ⟨h.same.trans hsame.symm, fun id peer hpeer => h.ids id peer (hsame ▸ hpeer)⟩

theorem session_handle_batch (hreached : (m.handleBatch a).1.reached = true) :
    (⟨(m.handleBatch a).2.lastSent, (m.handleBatch a).2.held.peers⟩ : Session WireNode) =
      (peerClient m.nodeId m.clientVersion).deliver ⟨m.lastSent, m.held.peers⟩
        ⟨a.server, a.world, a.batch⟩ := by
  obtain ⟨result, sent, htracked, -⟩ := tracked_record m a
  unfold MapStream.handleBatch at hreached ⊢
  split at hreached
  · rename_i hempty
    rw [if_pos hempty, Client.deliver_idle _ fun own hown => ?_]
    have hrescan : a.batch.needsPeerRescan = true := hown.batch
    rw [ChangeBatch.needsPeerRescan, hempty] at hrescan
    cases hrescan
  · rename_i hevents
    rw [if_neg hevents, htracked]
    rw [htracked] at hreached
    obtain error | response := result
    · cases hreached
    · have hbuilt := build_delta_of_tracked htracked
      rw [Client.deliver]
      dsimp only [peerClient]
      rw [hbuilt]
      dsimp only at hreached ⊢
      cases response with
      | none => rfl
      | some response =>
        dsimp only at hreached ⊢
        cases hencode : a.server.ext.encodeError response m.compress with
        | some error =>
          rw [hencode] at hreached
          cases hreached
        | none =>
          rw [hencode] at hreached
          dsimp only at hreached ⊢
          cases hsends : a.sends with
          | false =>
            rw [hsends] at hreached
            cases hreached
          | true => rfl

end Batch

/-! ## Streams of batches -/

def Arrival.KeepsSeen (a : Arrival) (m : MapStream) : Prop :=
  LastSeenKept m.recorded (a.world.db.nodes.map Node.toProto)

inductive BatchRun (C : MapStream → Arrival → Prop) (m₀ : MapStream) : MapStream → Prop
  | refl : BatchRun C m₀ m₀
  | step {m : MapStream} {a : Arrival} (h : BatchRun C m₀ m) (hmeets : C m a)
      (hopen : (m.handleBatch a).1 ≠ .closed) : BatchRun C m₀ (m.handleBatch a).2

section Stream

variable {m : MapStream} {a : Arrival}

theorem Synced.reached (h : Synced m) (hseen : a.KeepsSeen m)
    (hreached : (m.handleBatch a).1.reached = true) : Synced (m.handleBatch a).2 := by
  have hsync : InSync _ ((peerClient m.nodeId m.clientVersion).deliver ⟨m.lastSent, m.held.peers⟩
      ⟨a.server, a.world, a.batch⟩) :=
    h.in_sync.deliver fun nodes hnodes => List.mem_singleton.mp hnodes ▸ hseen
  rw [← session_handle_batch hreached] at hsync
  exact ⟨hsync.same, hsync.ids⟩

theorem reached_or_lost {outcome : Outcome} (hopen : outcome ≠ .closed) :
    outcome.reached = true ∨ outcome.lost = true := by
  cases outcome with
  | idle | sent => exact .inl rfl
  | failed _ | unencoded _ => exact .inr rfl
  | closed => exact absurd rfl hopen

theorem Synced.batch_run {m₀ : MapStream} (h : Synced m₀)
    (hrun : BatchRun (fun m a => a.KeepsSeen m ∧
      ((m.handleBatch a).1.lost = true → NothingNew m a)) m₀ m) : Synced m := by
  induction hrun with
  | refl => exact h
  | step _ hmeets hopen ih =>
    obtain hreached | hlost := reached_or_lost hopen
    · exact ih.reached hmeets.1 hreached
    · exact (ih.lost_iff hlost).mpr (hmeets.2 hlost)

theorem Synced.current (h : Synced m) (hseen : a.KeepsSeen m)
    (hreached : (m.handleBatch a).1.reached = true) (hrescan : a.batch.needsPeerRescan = true)
    {next : BTreeMap Nat (WireNode × Option String)}
    (hnext : currentPeers a.server m a.world = some next) (id : Nat) :
    (m.handleBatch a).2.held.peers[id]? = (next[id]?).map Prod.fst := by
  rw [currentPeers, Option.map_eq_some_iff] at hnext
  obtain ⟨own, hown, rfl⟩ := hnext
  have hclient : (m.handleBatch a).2.held.peers = _ :=
    congrArg Session.client (session_handle_batch hreached)
  rw [hclient]
  exact h.in_sync.client_rescan (d := ⟨a.server, a.world, a.batch⟩)
    (fun nodes hnodes => List.mem_singleton.mp hnodes ▸ hseen) ⟨hrescan, hown⟩ id

/-- An update that cannot be built or encoded leaves a record of what the client holds if and only
if the current peers were not read or are the recorded ones. While every failure is of this kind,
the record describes what the client holds, and the next batch about the peers whose update is sent
makes the client current. -/
theorem failed_delta_kept_iff {m₀ : MapStream} (hstart : Synced m₀)
    (hrun : BatchRun (fun m a => a.KeepsSeen m ∧
      ((m.handleBatch a).1.lost = true → NothingNew m a)) m₀ m) :
    Synced m ∧
      (∀ a : Arrival, (m.handleBatch a).1.lost = true →
        (Synced (m.handleBatch a).2 ↔ NothingNew m a)) ∧
      ∀ a : Arrival, a.KeepsSeen m → (m.handleBatch a).1.reached = true →
        a.batch.needsPeerRescan = true → ∀ next, currentPeers a.server m a.world = some next →
          ∀ id : Nat, (m.handleBatch a).2.held.peers[id]? = (next[id]?).map Prod.fst := by
  have hsynced := hstart.batch_run hrun
  refine ⟨hsynced, fun a hlost => hsynced.lost_iff hlost, ?_⟩
  intro a hseen hreached hrescan next hnext id
  exact hsynced.current hseen hreached hrescan hnext id

end Stream

def emptyStream : MapStream where
  nodeId := 1
  clientVersion := 113
  compress := false
  keepAlive := true
  lastSent := SessionPeers.fromPeers []
  held := { peers := ∅, dns := none, derpMap := none }

def policyArrival (faults : List Bool) : Arrival where
  server := openServer
  world := openServer.withStore pairDb stillEnv
  batch := { events := [.policyChanged] }
  faults
  error := .sqlite "database is locked"
  sends := true

theorem synced_empty_stream : Synced emptyStream := by
  refine ⟨rfl, fun id peer hpeer => ?_⟩
  rw [show emptyStream.lastSent.peers = ∅ from rfl, Std.ExtTreeMap.getElem?_empty] at hpeer
  cases hpeer

/-- The first read of an update fails; the next batch brings the client the second node. -/
theorem failed_delta_kept_unread :
    ((emptyStream.handleBatch (policyArrival [true])).1.lost = true) ∧
      Synced (emptyStream.handleBatch (policyArrival [true])).2 ∧
      ((emptyStream.handleBatch (policyArrival [true])).2.handleBatch
        (policyArrival [])).2.held.peers.contains 2 = true := by
  have hlost : (emptyStream.handleBatch (policyArrival [true])).1.lost = true := by decide +kernel
  have hunread : emptyStream.readsPeers (policyArrival [true]) = false := by decide +kernel
  have hnothing : NothingNew emptyStream (policyArrival [true]) := by
    intro hread
    rw [hunread] at hread
    cases hread
  have hseen : (policyArrival [true]).KeepsSeen emptyStream := by
    intro peer hpeer
    cases hpeer
  refine ⟨hlost, (failed_delta_kept_iff synced_empty_stream
    (BatchRun.refl.step ⟨hseen, fun _ => hnothing⟩ (by decide +kernel))).1, ?_⟩
  decide +kernel

/-- The reads for the filter of a policy update fail after the peers were read. The update is not
sent, and the next batch sends nothing: the client does not learn of the second node. -/
theorem failed_delta_forgotten :
    ((emptyStream.handleBatch (policyArrival [false, false, false, true])).1.lost = true) ∧
      ((emptyStream.handleBatch (policyArrival [false, false, false, true])).2.handleBatch
        { policyArrival [] with batch := { events := [.nodeChanged 2] } }).1 = .idle ∧
      ((emptyStream.handleBatch (policyArrival [false, false, false, true])).2.handleBatch
        { policyArrival [] with batch := { events := [.nodeChanged 2] } }).2.held.peers.contains 2 =
          false ∧
      (openServer.nextPeers (openServer.withStore pairDb stillEnv) (plainNode 1) 113).contains 2 =
        true := by
  refine ⟨?_, ?_, ?_, ?_⟩
  all_goals decide +kernel

end Crabscale.Server
