import Crabscale.Control.Bus
import Crabscale.Control.Deauthorized

/-!
# Map streams

`send_stream` sends a client its first frame, subscribes to the change bus and builds an update for
every batch it receives. A state of this system is the shared world, the stream's receiver once it
exists, and the client; its steps are the calls of all other operations, the subscription and the
reception of a batch. What is sent before the subscription, and what a lagging receiver skips, is
lost; `stream_current` says that nothing else can leave a client behind.
-/

namespace Crabscale.Server

open Rust Proto Policy Interaction Control ControlPlane

/-! ## The client -/

/-- What a client holds of its map. -/
structure Held where
  peers : BTreeMap Nat WireNode
  dns : Option DnsConfig
  derpMap : Option DerpMap
  deriving DecidableEq

namespace Held

def ofMap (map : MapResponse) : Held where
  peers := (map.peers.getD []).foldl (fun peers peer => peers.insert peer.id peer) ∅
  dns := map.dns
  derpMap := map.derpMap

/-- Apply an update; an omitted field means unchanged. -/
def receive (held : Held) (response : MapResponse) : Held where
  peers := replay id applyPatch held.peers response
  dns := response.dns.or held.dns
  derpMap := response.derpMap.or held.derpMap

def receiveUpdate (held : Held) : Option MapResponse → Held
  | none => held
  | some response => held.receive response

theorem receive_update_non_empty (held : Held) (response : MapResponse) :
    held.receiveUpdate (ControlPlane.nonEmpty response) = held.receive response := by
  unfold nonEmpty
  split
  case isTrue hempty => rw [hempty]; rfl
  case isFalse => rfl

theorem peers_receive_update (held : Held) (response : Option MapResponse) :
    (held.receiveUpdate response).peers = replayUpdate id applyPatch held.peers response := by
  cases response <;> rfl

end Held

/-! ## The stream -/

structure MapStream where
  nodeId : Nat
  clientVersion : Nat
  compress : Bool
  keepAlive : Bool
  lastSent : SessionPeers
  held : Held
  deriving DecidableEq

namespace MapStream

def start (session : StreamStart) : MapStream where
  nodeId := session.nodeId
  clientVersion := session.clientVersion
  compress := session.compress
  keepAlive := session.keepAlive
  lastSent := session.initialPeers
  held := Held.ofMap session.firstFrame.response

/-- Build the update for a batch and send it. Nothing is sent when the update cannot be built or
encoded, or when there is none; the tracking state may have moved on then. -/
def onBatch (cp : ControlPlane) (w : World) (m : MapStream) (batch : ChangeBatch) : MapStream :=
  if batch.events = [] then m
  else
    match (exec (cp.buildDelta m.nodeId batch m.lastSent m.clientVersion) w).1 with
    | .error _ => m
    | .ok (none, lastSent) => { m with lastSent }
    | .ok (some response, lastSent) =>
      match cp.ext.encodeError response m.compress with
      | some _ => { m with lastSent }
      | none => { m with lastSent, held := m.held.receive response }

end MapStream

structure StreamState where
  world : World
  position : Option Nat
  stream : MapStream

inductive StreamStep where
  | call (c : Call)
  | subscribe
  | receive

def channelCapacity : Nat := 256

namespace StreamState

/-- One step; `none` when it cannot be taken. A stream that is not kept alive ends after its first
frame. -/
def step (cp : ControlPlane) (s : StreamState) : StreamStep → Option StreamState
  | .call c => some { s with world := (handler c s.world).2 }
  | .subscribe =>
    if s.position = none ∧ s.stream.keepAlive = true then
      some { s with position := some s.world.bus.sent.length }
    else none
  | .receive =>
    match s.position with
    | none => none
    | some position =>
      match Broadcast.receive channelCapacity s.world.bus.sent position with
      | none => none
      | some (.lagged _, next) => some { s with position := some next }
      | some (.value batch, next) =>
        some { s with position := some next, stream := s.stream.onBatch cp s.world batch }

def runSteps (cp : ControlPlane) (steps : List StreamStep) (s : StreamState) : Option StreamState :=
  steps.foldlM (fun s st => s.step cp st) s

def reading (s : StreamState) : Nat := s.position.getD s.world.bus.sent.length

end StreamState

def firstFrame (cp : ControlPlane) (machineKey : MachineKey) (request : MapRequest) (w : World) :
    Option StreamState :=
  match exec (cp.handleMap machineKey request) w with
  | (.ok (.stream start), w') =>
    some { world := w', position := none, stream := MapStream.start start }
  | _ => none

/-! ## Obligations -/

def currentPeers (cp : ControlPlane) (m : MapStream) (w : World) :
    Option (BTreeMap Nat (WireNode × Option String)) :=
  (w.db.getNodeById m.nodeId).map fun own => cp.nextPeers w own m.clientVersion

def SamePart (cp : ControlPlane) (m : MapStream) (w w' : World) : Part → Prop
  | .peers => currentPeers cp m w' = currentPeers cp m w
  | .dns => cp.dnsOf w' = cp.dnsOf w
  | .derp => w'.derpMap = w.derpMap

def publishes : Call → Part → Prop
  | .memory (.publish event), part => part.names event = true
  | _, _ => False

/-- The parts that are owed an event after a step: those that changed since the last event that
names them was published. -/
def owedAfter (cp : ControlPlane) (s : StreamState) (owed : Part → Prop) : StreamStep → Part → Prop
  | .call c, part =>
    ¬publishes c part ∧ (owed part ∨ ¬SamePart cp s.stream s.world (handler c s.world).2 part)
  | .subscribe, part | .receive, part => owed part

inductive StreamRun (cp : ControlPlane) (C : StreamState → StreamStep → Prop) (s₀ : StreamState) :
    StreamState → (Part → Prop) → Prop where
  | refl : StreamRun cp C s₀ s₀ fun _ => False
  | step {s s' : StreamState} {owed : Part → Prop} {st : StreamStep} :
      StreamRun cp C s₀ s owed → C s st → s.step cp st = some s' →
      StreamRun cp C s₀ s' (owedAfter cp s owed st)

def Current (cp : ControlPlane) (m : MapStream) (w : World) : Part → Prop
  | .peers => ∀ next, currentPeers cp m w = some next →
      ∀ id : Nat, m.held.peers[id]? = (next[id]?).map Prod.fst
  | .dns => m.held.dns = cp.dnsOf w
  | .derp => m.held.derpMap = some w.derpMap

theorem Current.congr {cp : ControlPlane} {m : MapStream} {w w' : World} {part : Part}
    (h : Current cp m w part) (hsame : SamePart cp m w w' part) : Current cp m w' part := by
  cases part with
  | peers => exact fun next hnext => h next (hsame.symm.trans hnext)
  | dns => exact Eq.trans h hsame.symm
  | derp => exact h.trans (congrArg some hsame.symm)

/-! ## One batch -/

section Batch

variable {cp : ControlPlane} {w : World} {m : MapStream} {batch : ChangeBatch}

def Encodes (cp : ControlPlane) : Prop :=
  ∀ response compress, cp.ext.encodeError response compress = none

theorem on_batch_eq (hencode : Encodes cp) (w : World) (m : MapStream) (batch : ChangeBatch) :
    m.onBatch cp w batch =
      match (exec (cp.buildDelta m.nodeId batch m.lastSent m.clientVersion) w).1 with
      | .error _ => m
      | .ok (response, lastSent) => { m with lastSent, held := m.held.receiveUpdate response } := by
  unfold MapStream.onBatch
  split
  case isTrue hempty =>
    rw [build_delta_run_other cp (by simp [ChangeBatch.needsPeerRescan, hempty])]
    simp only [namedPartsOf, ChangeBatch.hasDns, ChangeBatch.hasDerp, hempty]
    rfl
  case isFalse =>
    cases (exec (cp.buildDelta m.nodeId batch m.lastSent m.clientVersion) w).1 with
    | error error => rfl
    | ok result =>
      obtain ⟨_ | response, lastSent⟩ := result
      · rfl
      · simp only [hencode response m.compress]
        rfl

theorem on_batch_node (hencode : Encodes cp) :
    (m.onBatch cp w batch).nodeId = m.nodeId ∧
      (m.onBatch cp w batch).clientVersion = m.clientVersion := by
  rw [on_batch_eq hencode]
  split <;> exact ⟨rfl, rfl⟩

theorem session_on_batch (hencode : Encodes cp) :
    (⟨(m.onBatch cp w batch).lastSent, (m.onBatch cp w batch).held.peers⟩ : Session WireNode) =
      (peerClient m.nodeId m.clientVersion).deliver ⟨m.lastSent, m.held.peers⟩ ⟨cp, w, batch⟩ := by
  rw [on_batch_eq hencode, Client.deliver]
  dsimp only [peerClient]
  split
  case h_1 error herror => rw [herror]
  case h_2 response lastSent hok =>
    rw [hok]
    simp only [Held.peers_receive_update]

theorem named_on_batch (hencode : Encodes cp) (hrow : (w.db.getNodeById m.nodeId).isSome) :
    (m.onBatch cp w batch).held.dns =
        (if batch.hasDns then cp.dnsOf w else none).or m.held.dns ∧
      (m.onBatch cp w batch).held.derpMap =
        (if batch.hasDerp then some w.derpMap else none).or m.held.derpMap := by
  rw [on_batch_eq hencode]
  cases hbatch : batch.needsPeerRescan with
  | false =>
    rw [build_delta_run_other cp hbatch]
    simp only [Held.receive_update_non_empty]
    exact ⟨rfl, rfl⟩
  | true =>
    obtain ⟨own, hown⟩ := Option.isSome_iff_exists.mp hrow
    rw [build_delta_run cp hbatch hown]
    dsimp only [deltaOf]
    cases batch.hasPolicy with
    | true => exact ⟨rfl, rfl⟩
    | false =>
      simp only [Bool.false_eq_true, if_false, Held.receive_update_non_empty]
      exact ⟨rfl, rfl⟩

def MapStream.recorded (m : MapStream) : List WireNode := m.lastSent.peers.toList.map Prod.snd

/-- The client holds the peers that the stream recorded, under their ids. -/
structure Synced (m : MapStream) : Prop where
  same : m.held.peers = m.lastSent.peers
  ids : ∀ (id : Nat) (peer : WireNode), m.lastSent.peers[id]? = some peer → peer.id = id

theorem Synced.in_sync (h : Synced m) : InSync [m.recorded] ⟨m.lastSent, m.held.peers⟩ where
  same := h.same
  ids := h.ids
  seen id peer hpeer :=
    ⟨m.recorded, List.mem_singleton.mpr rfl, peer, List.mem_map.mpr
      ⟨(id, peer), Std.ExtTreeMap.mem_toList_iff_getElem?_eq_some.mpr hpeer, rfl⟩,
      ⟨rfl, rfl, rfl⟩, rfl⟩

theorem Synced.on_batch (h : Synced m) (hencode : Encodes cp)
    (hseen : LastSeenKept m.recorded (w.db.nodes.map Node.toProto)) :
    Synced (m.onBatch cp w batch) := by
  have hsync : InSync _ ((peerClient m.nodeId m.clientVersion).deliver ⟨m.lastSent, m.held.peers⟩
      ⟨cp, w, batch⟩) :=
    h.in_sync.deliver fun nodes hnodes => List.mem_singleton.mp hnodes ▸ hseen
  rw [← session_on_batch hencode] at hsync
  exact ⟨hsync.same, hsync.ids⟩

structure Receives (cp : ControlPlane) (m : MapStream) (w : World) (batch : ChangeBatch) :
    Prop where
  row : (w.db.getNodeById m.nodeId).isSome
  seen : LastSeenKept m.recorded (w.db.nodes.map Node.toProto)
  dns : batch.hasDns = true → m.held.dns.isSome → cp.dnsConfigured w = true

instance (cp : ControlPlane) (m : MapStream) (w : World) (batch : ChangeBatch) :
    Decidable (Receives cp m w batch) :=
  decidable_of_iff
    ((w.db.getNodeById m.nodeId).isSome ∧
      LastSeenKept m.recorded (w.db.nodes.map Node.toProto) ∧
      (batch.hasDns = true → m.held.dns.isSome → cp.dnsConfigured w = true))
    ⟨fun ⟨hrow, hseen, hdns⟩ => ⟨hrow, hseen, hdns⟩, fun h => ⟨h.row, h.seen, h.dns⟩⟩

/-- After a batch the client is current in every part that the batch names, and in every part in
which it was current before. -/
theorem Receives.current (h : Receives cp m w batch) (hencode : Encodes cp) (hsynced : Synced m)
    {part : Part} (hpart : batch.names part = true ∨ Current cp m w part) :
    Current cp (m.onBatch cp w batch) w part := by
  cases part with
  | peers =>
    intro next hnext id
    obtain ⟨hnode, hversion⟩ : (m.onBatch cp w batch).nodeId = m.nodeId ∧ _ :=
      on_batch_node hencode
    rw [currentPeers, hnode, hversion, Option.map_eq_some_iff] at hnext
    obtain ⟨own, hown, rfl⟩ := hnext
    have hclient : (m.onBatch cp w batch).held.peers = _ :=
      congrArg Session.client (session_on_batch hencode)
    rw [hclient]
    by_cases hrescan : batch.needsPeerRescan = true
    · exact hsynced.in_sync.client_rescan (d := ⟨cp, w, batch⟩)
        (fun nodes hnodes => List.mem_singleton.mp hnodes ▸ h.seen) ⟨hrescan, hown⟩ id
    · rw [Client.deliver_idle _ fun own hown => hrescan hown.batch]
      exact hpart.resolve_left hrescan _ (by rw [currentPeers, hown]; rfl) id
  | dns =>
    change (m.onBatch cp w batch).held.dns = cp.dnsOf w
    rw [(named_on_batch hencode h.row).1]
    by_cases hdns : batch.hasDns = true
    · rw [if_pos hdns, or_of_is_some_imp]
      rw [is_some_dns_of]
      exact h.dns hdns
    · rw [if_neg hdns]
      exact hpart.resolve_left hdns
  | derp =>
    change (m.onBatch cp w batch).held.derpMap = some w.derpMap
    rw [(named_on_batch hencode h.row).2]
    by_cases hderp : batch.hasDerp = true
    · rw [if_pos hderp]
      rfl
    · rw [if_neg hderp]
      exact hpart.resolve_left hderp

end Batch

/-! ## The first frame -/

section FirstFrame

variable {cp : ControlPlane} {w w' : World} {node own : Node} {version : Nat}

theorem peers_of_initial_map (id : Nat) :
    (Held.ofMap (cp.initialMapOf w node version)).peers[id]? =
      ((cp.nextPeers w node version)[id]?).map Prod.fst := by
  have hsorted := List.perm_insertionSort (fun a b : WireNode => a.id ≤ b.id)
    ((cp.peerRows w node).map (cp.peerOf w version))
  have hids : ((((cp.peerRows w node).map (cp.peerOf w version)).insertionSort
      fun a b => a.id ≤ b.id).map WireNode.id).Nodup := by
    rw [(hsorted.map WireNode.id).nodup_iff, List.map_map]
    refine (congrArg List.Nodup (List.map_congr_left fun stored _ => ?_)).mpr
      ((Db.nodup_node_ids w.db).sublist (List.filter_sublist.map _))
    exact id_peer_of stored
  refine (getElem?_put_all (fun peer => peer) hids ∅ id).trans (Option.ext fun peer => ?_)
  rw [Option.map_eq_some_iff]
  constructor
  · intro hfound
    split at hfound
    case h_2 => simp at hfound
    case h_1 found hfind =>
      cases hfound
      have hmem := hsorted.mem_iff.mp (List.mem_of_find?_eq_some hfind)
      obtain ⟨stored, hstored, rfl⟩ := List.mem_map.mp hmem
      have hid : stored.id = id := by simpa using List.find?_some hfind
      exact ⟨_, getElem?_next_peers.mpr ⟨stored, hstored, hid, rfl⟩, rfl⟩
  · rintro ⟨value, hvalue, rfl⟩
    obtain ⟨stored, hstored, rfl, rfl⟩ := getElem?_next_peers.mp hvalue
    have hmem := hsorted.mem_iff.mpr (List.mem_map_of_mem hstored)
    have hfind := find?_eq_some_of_nodup WireNode.id hids hmem
    rw [id_peer_of] at hfind
    rw [hfind]

theorem next_peers_opened (hopened : Opened node.id w w') (hid : own.id = node.id)
    (hkey : own.nodeKey = node.nodeKey)
    (hother : ∀ stored ∈ w.db.nodes, stored.id = node.id → stored.nodeKey = node.nodeKey) :
    cp.nextPeers w' own version = cp.nextPeers w node version := by
  have hcompile : w'.compileNode = w.compileNode := by
    funext stored
    simp only [World.compileNode, World.ownerLogin, hopened.db]
  have hrows : cp.peerRows w' own = cp.peerRows w node := by
    simp only [peerRows, visibleOf, visibleTo,
      World.compileNodes, hcompile, hopened.db, hid]
    refine List.filter_congr fun stored _ => ?_
    rw [isPeer, isPeer, hkey]
  unfold nextPeers
  rw [hrows]
  refine congrArg BTreeMap.from (List.map_congr_left fun stored hstored => ?_)
  obtain ⟨hmem, hpeer⟩ := List.mem_filter.mp hstored
  have hne : stored.id ≠ node.id := by
    intro hsame
    simp [isPeer, hother stored hmem hsame] at hpeer
  have hroutes : cp.routesOf w' stored = cp.routesOf w stored := by
    rw [routesOf, routesOf, hcompile]
  have hrouted : cp.routedPeer w' stored = cp.routedPeer w stored := by
    rw [routedPeer, routedPeer, hroutes, hopened.online stored.id hne]
  rw [peerOf, peerOf, hrouted]

theorem key_of_written_id {machineKey : MachineKey} {request : MapRequest}
    (hrow : MapRowOf cp machineKey request w node) (hwrote : Wrote w node w') {stored : Node}
    (hmem : stored ∈ w'.db.nodes) (hid : stored.id = node.id) : stored.nodeKey = node.nodeKey := by
  obtain ⟨before, hbefore, -, hmap⟩ := hrow
  obtain ⟨⟨result, hupsert⟩, -⟩ := hwrote
  have hsame := map_row_same_row hmap
  have hbefore := (Db.get_node_by_node_key_eq_some.mp hbefore).1
  have hdb : w'.db = (w.db.upsertNode node).2 := (congrArg Prod.snd hupsert).symm
  obtain ⟨other, hother, hids, hkeys⟩ :=
    Db.mem_upsert_existing hbefore hsame.nodeKey.symm (hdb ▸ hmem)
  have hrow : other = before := List.inj_on_of_nodup_map (Db.nodup_node_ids w.db) hother hbefore
    (hids.symm.trans (hid.trans hsame.id))
  rw [hkeys, hrow, hsame.nodeKey]

theorem first_frame_eq_some {machineKey : MachineKey} {request : MapRequest} {s : StreamState}
    (h : firstFrame cp machineKey request w = some s) :
    ∃ start, exec (cp.handleMap machineKey request) w = (.ok (.stream start), s.world) ∧
      s.position = none ∧ s.stream = MapStream.start start := by
  unfold firstFrame at h
  split at h <;> cases h
  exact ⟨_, by assumption, rfl, rfl⟩

theorem current_start {machineKey : MachineKey} {request : MapRequest} {start : StreamStart}
    (h : exec (cp.handleMap machineKey request) w = (.ok (.stream start), w')) :
    Synced (MapStream.start start) ∧ ∀ part, Current cp (MapStream.start start) w' part := by
  obtain ⟨node, w₁, hrow, hwrote, hopened, -, hstart⟩ := handle_map_ok h
  have hstart := hstart start rfl
  have hother : ∀ stored ∈ w₁.db.nodes, stored.id = node.id → stored.nodeKey = node.nodeKey :=
    fun stored hmem hid => key_of_written_id hrow hwrote hmem hid
  constructor
  · have hsync : InSync _ ((peerClient 0 0).start _) :=
      in_sync_start ((cp.initialMapOf w₁ node request.version).peers.getD [])
    refine ⟨?_, ?_⟩
    · rw [MapStream.start, hstart.map, hstart.peers]
      exact hsync.same
    · rw [MapStream.start, hstart.peers]
      exact hsync.ids
  · intro part
    cases part with
    | peers =>
      intro next hnext id
      rw [MapStream.start, currentPeers, Option.map_eq_some_iff] at hnext
      obtain ⟨own, hown, rfl⟩ := hnext
      obtain ⟨hmem, hid⟩ := Db.get_node_by_id_eq_some.mp hown
      rw [hstart.nodeId] at hid
      rw [MapStream.start, hstart.map, hstart.clientVersion, peers_of_initial_map,
        next_peers_opened hopened hid (hother own (hopened.db ▸ hmem) hid) hother]
    | dns =>
      change (MapStream.start start).held.dns = _
      rw [MapStream.start, hstart.map]
      refine (dns_of_congr ?_ hopened.extraRecords).symm
      rw [World.hosts, World.hosts, hopened.db]
    | derp =>
      change (MapStream.start start).held.derpMap = _
      rw [MapStream.start, hstart.map, hopened.derpMap]
      rfl

end FirstFrame

/-! ## Runs -/

section Run

variable {cp : ControlPlane} {s s' : StreamState} {owed : Part → Prop}

/-- Steps that lose nothing: no batch is sent between the first frame and the subscription, and the
receiver is not too far behind and finds what the batch needs. -/
def Lossless (cp : ControlPlane) (s : StreamState) : StreamStep → Prop
  | .call c => s.position = none → (handler c s.world).2.bus.sent = s.world.bus.sent
  | .subscribe => True
  | .receive => ∀ position ∈ s.position, s.world.bus.sent.length ≤ position + channelCapacity ∧
      ∀ batch ∈ s.world.bus.sent[position]?, Receives cp s.stream s.world batch

instance (cp : ControlPlane) (s : StreamState) (st : StreamStep) : Decidable (Lossless cp s st) :=
  match st with
  | .call _ => inferInstanceAs (Decidable (_ → _))
  | .subscribe => inferInstanceAs (Decidable True)
  | .receive => inferInstanceAs (Decidable (∀ position ∈ s.position, _ ∧ ∀ batch ∈ _, _))

structure Follows (cp : ControlPlane) (s : StreamState) (owed : Part → Prop) : Prop where
  bound : s.reading ≤ s.world.bus.sent.length
  synced : Synced s.stream
  parts : ∀ part, owed part ∨ Current cp s.stream s.world part ∨
    s.world.bus.Announced s.reading part

theorem announced_call {c : Call} {w : World} {position : Nat} {part : Part}
    (hposition : position ≤ w.bus.sent.length)
    (h : publishes c part ∨ w.bus.Announced position part) :
    (handler c w).2.bus.Announced position part := by
  cases c with
  | store c => exact h.resolve_left id
  | env c => exact h.resolve_left id
  | memory c =>
    cases c with
    | publish event => exact ChangeBus.announced_publish h hposition
    | flush => exact (h.resolve_left id).flush hposition
    | _ => exact h.resolve_left id

theorem length_sent_call (c : Call) (w : World) :
    w.bus.sent.length ≤ (handler c w).2.bus.sent.length := by
  cases c with
  | store c => exact Nat.le_refl _
  | env c => exact Nat.le_refl _
  | memory c =>
    cases c with
    | publish event => exact w.bus.length_sent_publish event
    | flush => exact w.bus.length_sent_flush
    | _ => exact Nat.le_refl _

/-- A call that sends nothing before the subscription leaves the receiver where it is. -/
theorem reading_call {c : Call} (hc : Lossless cp s (.call c)) :
    StreamState.reading { s with world := (handler c s.world).2 } = s.reading := by
  unfold StreamState.reading
  cases hposition : s.position with
  | none => exact congrArg List.length (hc hposition)
  | some position => rfl

theorem Follows.call (h : Follows cp s owed) {c : Call} (hc : Lossless cp s (.call c)) :
    Follows cp { s with world := (handler c s.world).2 } (owedAfter cp s owed (.call c)) := by
  refine ⟨?_, h.synced, fun part => ?_⟩
  · rw [reading_call hc]
    exact h.bound.trans (length_sent_call c s.world)
  rw [reading_call hc]
  by_cases hpublishes : publishes c part
  · exact .inr (.inr (announced_call h.bound (.inl hpublishes)))
  obtain howed | hcurrent | hannounced := h.parts part
  · exact .inl ⟨hpublishes, .inl howed⟩
  · by_cases hsame : SamePart cp s.stream s.world (handler c s.world).2 part
    · exact .inr (.inl (hcurrent.congr hsame))
    · exact .inl ⟨hpublishes, .inr hsame⟩
  · exact .inr (.inr (announced_call h.bound (.inr hannounced)))

theorem Follows.receive (h : Follows cp s owed) (hencode : Encodes cp) {position next : Nat}
    {batch : ChangeBatch} (hposition : s.position = some position)
    (hreceive : Broadcast.receive channelCapacity s.world.bus.sent position =
      some (.value batch, next))
    (hbatch : Receives cp s.stream s.world batch) :
    Follows cp { s with position := some next, stream := s.stream.onBatch cp s.world batch }
      owed := by
  have hreading : s.reading = position := by
    rw [StreamState.reading, hposition]
    rfl
  refine ⟨Broadcast.position_le_of_receive_value hreceive, h.synced.on_batch hencode hbatch.seen,
    fun part => ?_⟩
  have hcurrent : _ → Current cp _ s.world part := hbatch.current hencode h.synced
  obtain howed | hpart | hwindow | hunread := h.parts part
  · exact .inl howed
  · exact .inr (.inl (hcurrent (.inr hpart)))
  · exact .inr (.inr (.inl hwindow))
  · rw [hreading] at hunread
    obtain hnames | hunread := hunread.receive hreceive
    · exact .inr (.inl (hcurrent (.inl hnames)))
    · exact .inr (.inr (.inr hunread))

theorem Follows.step (h : Follows cp s owed) (hencode : Encodes cp) {st : StreamStep}
    (hst : Lossless cp s st) (hstep : s.step cp st = some s') :
    Follows cp s' (owedAfter cp s owed st) := by
  cases st with
  | call c =>
    cases hstep
    exact h.call hst
  | subscribe =>
    simp only [StreamState.step] at hstep
    split at hstep <;> cases hstep
    rename_i hready
    have hreading : s.reading = s.world.bus.sent.length := by
      rw [StreamState.reading, hready.1]
      rfl
    refine ⟨Nat.le_refl _, h.synced, fun part => ?_⟩
    have hpart := h.parts part
    rw [hreading] at hpart
    exact hpart
  | receive =>
    simp only [StreamState.step] at hstep
    split at hstep
    case h_1 => cases hstep
    case h_2 position hposition =>
      obtain ⟨hlag, hbatch⟩ := hst position hposition
      split at hstep
      case h_1 => cases hstep
      case h_2 missed next hreceive =>
        exact (Broadcast.receive_ne_lagged hlag hreceive).elim
      case h_3 batch next hreceive =>
        cases hstep
        exact h.receive hencode hposition hreceive
          (hbatch batch (Broadcast.receive_value hreceive).1)

/-- A client whose stream was opened by `handleMap` and whose steps lose nothing holds, when
everything is announced, flushed and received, the peers, the DNS configuration and the DERP map of
a new complete map. -/
theorem stream_current (hencode : Encodes cp) {machineKey : MachineKey} {request : MapRequest}
    {w : World} {s₀ : StreamState} (hstart : firstFrame cp machineKey request w = some s₀)
    (hrun : StreamRun cp (Lossless cp) s₀ s owed)
    (howed : ∀ part, ¬owed part) (hflushed : s.world.bus.accumulator.drainBatch.events = [])
    (hreceived : s.position = some s.world.bus.sent.length) {own : Node}
    (hown : s.world.db.getNodeById s.stream.nodeId = some own) {later : MapRequest}
    (hversion : later.version = s.stream.clientVersion) :
    ∃ map, exec (cp.buildInitialMap own later) s.world = (.ok map, s.world) ∧
      s.stream.held = Held.ofMap map := by
  have hfollows : Follows cp s owed := by
    clear howed hflushed hreceived hown hversion
    induction hrun with
    | refl =>
      obtain ⟨start, hmap, hposition, hstream⟩ := first_frame_eq_some hstart
      obtain ⟨hsynced, hcurrent⟩ := current_start hmap
      rw [← hstream] at hsynced hcurrent
      refine ⟨?_, hsynced, fun part => .inr (.inl (hcurrent part))⟩
      rw [StreamState.reading, hposition]
      exact Nat.le_refl _
    | step _ hst hstep ih => exact ih.step hencode hst hstep
  have hreading : s.reading = s.world.bus.sent.length := by
    rw [StreamState.reading, hreceived]
    rfl
  have hcurrent : ∀ part, Current cp s.stream s.world part := by
    intro part
    refine ((hfollows.parts part).resolve_left (howed part)).resolve_right ?_
    exact ChangeBus.not_announced hflushed (Nat.le_of_eq hreading.symm)
  refine ⟨_, reads_build_initial_map cp own later s.world, ?_⟩
  rw [hversion]
  have hpeers : s.stream.held.peers =
      (Held.ofMap (cp.initialMapOf s.world own s.stream.clientVersion)).peers := by
    refine Std.ExtTreeMap.ext_getElem? fun id => ?_
    rw [hcurrent .peers _ (by rw [currentPeers, hown]; rfl) id, peers_of_initial_map]
  cases hheld : s.stream.held with
  | mk peers dns derpMap =>
    have hdns := hcurrent .dns
    have hderp := hcurrent .derp
    simp only [Current, hheld] at hpeers hdns hderp
    rw [hpeers, hdns, hderp]
    rfl

end Run

def registered : World :=
  (exec (openServer.register ⟨1⟩ (registerRequest 1)) (openServer.withStore Db.empty stillEnv)).2

def streamRequest : MapRequest :=
  { version := 113, nodeKey := ⟨1⟩, stream := true, keepAlive := true }

def streamAfter (steps : List StreamStep) : Option StreamState :=
  (firstFrame openServer ⟨1⟩ streamRequest registered).bind (StreamState.runSteps openServer steps)

theorem registered_own_batch :
    (streamAfter [.subscribe, .call (.memory .flush)]).all (fun s =>
        decide (Lossless openServer s .receive)) = true ∧
      (streamAfter [.subscribe, .call (.memory .flush), .receive]).map (fun s =>
        (decide (s.position = some s.world.bus.sent.length),
          s.world.bus.accumulator.drainBatch.events, s.stream.nodeId, s.stream.clientVersion,
          (s.world.db.getNodeById 1).isSome)) = some (true, [], 1, 113, true) := by
  decide +kernel

/-- A stream that subscribes before its own request is flushed is current when it has received that
batch. -/
theorem stream_current_first :
    ∃ s, streamAfter [.subscribe, .call (.memory .flush), .receive] = some s ∧
      ∃ map, exec (openServer.buildInitialMap (firstNode s.world) { version := 113 }) s.world =
          (.ok map, s.world) ∧
        s.stream.held = Held.ofMap map := by
  obtain ⟨hlossless, hend⟩ := registered_own_batch
  obtain ⟨s, hs, hfacts⟩ := Option.map_eq_some_iff.mp hend
  simp only [Prod.mk.injEq, decide_eq_true_eq] at hfacts
  obtain ⟨hreceived, hflushed, hnode, hversion, hown⟩ := hfacts
  refine ⟨s, hs, ?_⟩
  obtain ⟨own, hown⟩ := Option.isSome_iff_exists.mp hown
  obtain ⟨s₀, hs₀, hsteps⟩ := Option.bind_eq_some_iff.mp hs
  simp only [StreamState.runSteps, List.foldlM_cons, List.foldlM_nil, Option.bind_eq_bind,
    Option.bind_eq_some_iff, Option.pure_def, Option.some_inj] at hsteps
  obtain ⟨s₁, hsubscribe, s₂, hflush, s₃, hreceive, rfl⟩ := hsteps
  have hmiddle : streamAfter [.subscribe, .call (.memory .flush)] = some s₂ := by
    rw [streamAfter, hs₀, Option.bind_some, StreamState.runSteps, List.foldlM_cons, hsubscribe]
    exact hflush
  rw [hmiddle] at hlossless
  have hsubscribed : s₁.position ≠ none := by
    simp only [StreamState.step] at hsubscribe
    split at hsubscribe <;> cases hsubscribe
    simp
  have hlate : Lossless openServer s₁ (.call (.memory .flush)) := fun hnone =>
    (hsubscribed hnone).elim
  have hrun := ((StreamRun.refl.step (trivial : Lossless openServer s₀ .subscribe)
    hsubscribe).step hlate hflush).step (of_decide_eq_true hlossless) hreceive
  have hfirst : s₃.world.db.getNodeById 1 = some (firstNode s₃.world) := by
    rw [firstNode, hown]
    rfl
  refine stream_current (fun _ _ => rfl) hs₀ hrun (fun part howed => ?_) hflushed hreceived
    (hnode ▸ hfirst) hversion.symm
  -- Neither subscribing nor flushing changes what a map shows.
  obtain ⟨-, howed | hchanged⟩ := howed
  · exact howed
  · cases hflush
    cases part <;> exact hchanged rfl

/-! ## A change between the first frame and the subscription -/

def lateSubscription : List StreamStep :=
  [.call (.store (.upsertNode (plainNode 2))), .call (.memory (.publish (.nodeChanged 2))),
    .call (.memory .flush), .subscribe]

/-- The stream has received everything there is, but its client does not hold the second node. -/
theorem change_lost :
    (streamAfter lateSubscription).map (fun s =>
      (decide (s.position = some s.world.bus.sent.length),
        s.world.bus.accumulator.drainBatch.events, s.stream.held.peers.keys,
        (Held.ofMap (openServer.initialMapOf s.world (firstNode s.world) 113)).peers.keys)) =
      some (true, [], [], [2]) := by
  decide +kernel

end Crabscale.Server
