import Crabscale.Control.PeerSync
import Crabscale.Control.Rows

/-!
# Convergence of peer updates

A client applies the update built for each batch, while the server and its state change in any way
between two batches. A batch that does not concern the peers, or comes while the session's own row
is missing, leaves the client as it was (`Client.deliver_idle`). `peer_deltas_converge` is about
clients that keep the peers, `key_expiry_known_iff` about the key expiries, which only patches
carry.
-/

namespace Crabscale.Control

open Rust Proto Policy ControlPlane

/-- A batch as it reaches a session, with the server and its state at that moment. -/
structure Delivery where
  server : ControlPlane
  world : World
  batch : ChangeBatch

structure Client (V : Type) where
  nodeId : Nat
  version : Nat
  onPut : WireNode → V
  onPatch : PeerChange → V → V

/-- The server's record of what it sent to a session, and what the client holds. -/
structure Session (V : Type) where
  sent : SessionPeers
  client : BTreeMap Nat V

namespace Client

variable {V : Type} (c : Client V)

def start (peers : List WireNode) : Session V where
  sent := SessionPeers.fromPeers peers
  client := peers.foldl (fun client peer => client.insert peer.id (c.onPut peer)) ∅

/-- Build the update for a batch and apply it; without an update nothing happens. -/
def deliver (s : Session V) (d : Delivery) : Session V :=
  match (exec (d.server.buildDelta c.nodeId d.batch s.sent c.version) d.world).1 with
  | .ok (response, sent) => { sent, client := replayUpdate c.onPut c.onPatch s.client response }
  | .error _ => s

def follow (s : Session V) (ds : List Delivery) : Session V := ds.foldl c.deliver s

theorem follow_append (s : Session V) (ds : List Delivery) (d : Delivery) :
    c.follow s (ds ++ [d]) = c.deliver (c.follow s ds) d := by
  simp [follow]

/-- A batch that concerns the peers, while the session's own row exists. -/
structure Rescans (d : Delivery) (own : Node) : Prop where
  batch : d.batch.needsPeerRescan = true
  row : d.world.db.getNodeById c.nodeId = some own

end Client

/-! ## The current peers -/

section NextPeers

variable {cp : ControlPlane} {w : World} {node : Node} {version : Nat}

@[simp] theorem peer_of_fields (stored : Node) :
    (cp.peerOf w version stored).id = stored.id ∧
      (cp.peerOf w version stored).machine = stored.machineKey ∧
      (cp.peerOf w version stored).created = stored.created ∧
      (cp.peerOf w version stored).lastSeen = stored.lastSeen ∧
      (cp.peerOf w version stored).online = some (w.sessions.isOnline stored.id) := by
  unfold peerOf routedPeer
  dsimp only
  split <;> exact ⟨rfl, rfl, rfl, rfl, rfl⟩

theorem id_peer_of (stored : Node) : (cp.peerOf w version stored).id = stored.id :=
  (peer_of_fields stored).1

theorem getElem?_next_peers {id : Nat} {value : WireNode × Option String} :
    (cp.nextPeers w node version)[id]? = some value ↔
      ∃ stored ∈ cp.peerRows w node, stored.id = id ∧
        value = (cp.peerOf w version stored, stored.keyExpiry) := by
  have hrows : ((cp.peerRows w node).map Node.id).Nodup :=
    (Db.nodup_node_ids w.db).sublist (List.filter_sublist.map _)
  have hkeys : (((cp.peerRows w node).map fun stored =>
      (stored.id, cp.peerOf w version stored, stored.keyExpiry)).map Prod.fst).Nodup := by
    rw [List.map_map]
    exact hrows
  unfold nextPeers
  rw [getElem?_from hkeys, List.find?_map]
  simp only [Option.map_eq_some_iff, Function.comp_def]
  constructor
  · rintro ⟨_, ⟨stored, hfound, rfl⟩, rfl⟩
    exact ⟨stored, List.mem_of_find?_eq_some hfound, by simpa using List.find?_some hfound, rfl⟩
  · rintro ⟨stored, hstored, rfl, rfl⟩
    exact ⟨_, ⟨stored, find?_eq_some_of_nodup Node.id hrows hstored, rfl⟩, rfl⟩

theorem own_ids_next_peers : OwnIds (cp.nextPeers w node version) := by
  intro id value hvalue
  obtain ⟨stored, -, rfl, rfl⟩ := getElem?_next_peers.mp hvalue
  exact id_peer_of stored

end NextPeers

/-! ## One batch -/

namespace Client

variable {V : Type} (c : Client V)

def kept (s : Session V) (policy : Bool) (id : Nat) (peer : WireNode) (expiry : Option String) :
    Option V :=
  if policy then some (c.onPut peer)
  else
    match entryDiff s.sent id peer expiry with
    | .full => some (c.onPut peer)
    | .unchanged => s.client[id]?
    | .patch change => (s.client[id]?).map (c.onPatch change)

theorem deliver_idle {d : Delivery} (hidle : ∀ own, ¬c.Rescans d own) (s : Session V) :
    c.deliver s d = s := by
  unfold deliver
  cases hbatch : d.batch.needsPeerRescan with
  | false =>
    rw [build_delta_run_other _ hbatch]
    dsimp only
    rw [replay_update_non_empty]
    rfl
  | true =>
    cases hrow : d.world.db.getNodeById c.nodeId with
    | none =>
      rw [build_delta_run_rescan _ hbatch, hrow]
      rfl
    | some own => exact (hidle own ⟨hbatch, hrow⟩).elim

variable {c} {d : Delivery} {own : Node}

theorem Rescans.deliver_eq (h : c.Rescans d own) (s : Session V) :
    c.deliver s d =
      { sent := (d.server.peerDeltaOf d.world own s.sent c.version).2
        client := replayUpdate c.onPut c.onPatch s.client
          (d.server.deltaOf d.world own d.batch s.sent c.version) } := by
  unfold deliver
  rw [build_delta_run _ h.batch h.row]

theorem Rescans.sent_peers (h : c.Rescans d own) (s : Session V) (id : Nat) :
    (c.deliver s d).sent.peers[id]? =
      ((d.server.nextPeers d.world own c.version)[id]?).map Prod.fst := by
  rw [h.deliver_eq]
  exact sent_peers_diff_session id

theorem Rescans.sent_key_expiry (h : c.Rescans d own) (s : Session V) {id : Nat}
    {value : WireNode × Option String}
    (hvalue : (d.server.nextPeers d.world own c.version)[id]? = some value) :
    (c.deliver s d).sent.keyExpiry[id]? = some value.2 := by
  rw [h.deliver_eq]
  exact sent_key_expiry_diff_session hvalue

theorem Rescans.getElem?_client (h : c.Rescans d own) {s : Session V}
    (hkeys : ∀ id : Nat, id ∈ s.client → id ∈ s.sent.peers) (id : Nat) :
    (c.deliver s d).client[id]? =
      ((d.server.nextPeers d.world own c.version)[id]?).bind fun value =>
        c.kept s d.batch.hasPolicy id value.1 value.2 := by
  rw [h.deliver_eq]
  dsimp only [deltaOf, kept]
  cases hpolicy : d.batch.hasPolicy with
  | true =>
    simp only [if_true, replayUpdate]
    rw [getElem?_replay_policy _ _ own_ids_next_peers
      (by rw [policyDeltaOf, peerDeltaOf, diff_session_eq])]
    cases (d.server.nextPeers d.world own c.version)[id]? <;> rfl
  | false =>
    simp only [Bool.false_eq_true, if_false]
    rw [replay_update_non_empty, peerDeltaOf,
      getElem?_replay_peer_delta _ _ own_ids_next_peers hkeys _ rfl]
    cases (d.server.nextPeers d.world own c.version)[id]? <;> rfl

end Client

/-! ## The verdict on one peer -/

section Diff

variable {prev next : WireNode} {prevExpiry nextExpiry : Option String}

theorem diff_peers_full_iff :
    diffPeers prev next prevExpiry nextExpiry = .full ↔ structuralEqual prev next = false := by
  unfold diffPeers
  cases structuralEqual prev next with
  | false => simp
  | true =>
    simp only [Bool.not_true, Bool.false_eq_true, if_false, Bool.true_eq_false, iff_false]
    split <;> simp

def applyPatch (change : PeerChange) (peer : WireNode) : WireNode :=
  { peer with
    homeDerp := change.derpRegion.getD peer.homeDerp
    endpoints := change.endpoints.getD peer.endpoints
    key := change.key.getD peer.key
    discoKey := change.discoKey.getD peer.discoKey
    online := change.online.or peer.online
    lastSeen := change.lastSeen.or peer.lastSeen
    cap := change.cap.getD peer.cap }

@[simp] theorem getD_patched {α : Type} [DecidableEq α] (prev next : α) :
    (patched prev next).getD prev = next := by
  unfold patched
  split
  case isTrue heq => exact heq
  case isFalse => rfl

theorem or_new_value {α : Type} [DecidableEq α] {prev next : Option α}
    (h : prev.isSome → next.isSome) : (if prev = next then none else next).or prev = next := by
  cases prev with
  | none => cases next <;> simp
  | some a =>
    obtain ⟨b, rfl⟩ := Option.isSome_iff_exists.mp (h rfl)
    by_cases heq : a = b <;> simp [heq]

theorem eq_of_structural_equal (hid : prev.id = next.id) (h : structuralEqual prev next = true) :
    { prev with
      homeDerp := next.homeDerp, endpoints := next.endpoints, key := next.key,
      discoKey := next.discoKey, online := next.online, lastSeen := next.lastSeen,
      cap := next.cap } = next := by
  simp only [structuralEqual, Bool.and_eq_true, beq_iff_eq] at h
  obtain ⟨⟨⟨⟨⟨⟨⟨⟨⟨⟨⟨⟨h₁, h₂⟩, h₃⟩, h₄⟩, h₅⟩, h₆⟩, h₇⟩, h₈⟩, h₉⟩, h₁₀⟩, h₁₁⟩, h₁₂⟩, h₁₃⟩ := h
  rw [hid, h₁, h₂, h₃, h₄, h₅, h₆, h₇, h₈, h₉, h₁₀, h₁₁, h₁₂, h₁₃]

theorem same_of_diff_unchanged (h : diffPeers prev next prevExpiry nextExpiry = .unchanged) :
    structuralEqual prev next = true ∧ prev.endpoints = next.endpoints ∧
      prev.homeDerp = next.homeDerp ∧ prev.key = next.key ∧ prev.discoKey = next.discoKey ∧
      prev.online = next.online ∧ prev.lastSeen = next.lastSeen ∧ prev.cap = next.cap ∧
      prevExpiry = nextExpiry := by
  unfold diffPeers at h
  split at h
  case isTrue => cases h
  case isFalse hstructural =>
    dsimp only at h
    split at h
    case isTrue => cases h
    case isFalse hsame =>
      simp only [Bool.or_eq_true, decide_eq_true_eq, not_or, not_not, ne_eq, and_assoc] at hsame
      exact ⟨by simpa using hstructural, hsame⟩

theorem eq_of_diff_unchanged (hid : prev.id = next.id)
    (h : diffPeers prev next prevExpiry nextExpiry = .unchanged) : prev = next := by
  obtain ⟨hstructural, h₁, h₂, h₃, h₄, h₅, h₆, h₇, -⟩ := same_of_diff_unchanged h
  have heq := eq_of_structural_equal hid hstructural
  rwa [← h₁, ← h₂, ← h₃, ← h₄, ← h₅, ← h₆, ← h₇] at heq

theorem key_expiry_eq_of_diff_unchanged
    (h : diffPeers prev next prevExpiry nextExpiry = .unchanged) : prevExpiry = nextExpiry := by
  obtain ⟨-, -, -, -, -, -, -, -, h⟩ := same_of_diff_unchanged h
  exact h

theorem apply_patch_of_diff (hid : prev.id = next.id) (honline : next.online.isSome)
    (hseen : prev.lastSeen.isSome → next.lastSeen.isSome) {change : PeerChange}
    (h : diffPeers prev next prevExpiry nextExpiry = .patch change) :
    applyPatch change prev = next := by
  unfold diffPeers at h
  split at h
  case isTrue => cases h
  case isFalse hstructural =>
    dsimp only at h
    split at h <;> cases h
    simp only [applyPatch, getD_patched, or_new_value hseen, or_new_value fun _ => honline]
    exact eq_of_structural_equal hid (by simpa using hstructural)

theorem key_expiry_of_diff {change : PeerChange}
    (h : diffPeers prev next prevExpiry nextExpiry = .patch change) :
    change.keyExpiry = if prevExpiry = nextExpiry then none else nextExpiry := by
  unfold diffPeers at h
  split at h
  case isTrue => cases h
  case isFalse =>
    dsimp only at h
    split at h <;> cases h
    rfl

end Diff

/-! ## Peers -/

def peerClient (nodeId version : Nat) : Client WireNode where
  nodeId := nodeId
  version := version
  onPut := id
  onPatch := applyPatch

def SameNode (a b : WireNode) : Prop := a.id = b.id ∧ a.machine = b.machine ∧ a.created = b.created

instance (a b : WireNode) : Decidable (SameNode a b) :=
  inferInstanceAs (Decidable (_ ∧ _ ∧ _))

/-- No node's `lastSeen` goes from a time to nothing between two states of the node table. -/
def LastSeenKept (earlier later : List WireNode) : Prop :=
  ∀ a ∈ earlier, ∀ b ∈ later, SameNode a b → a.lastSeen.isSome → b.lastSeen.isSome

instance (earlier later : List WireNode) : Decidable (LastSeenKept earlier later) :=
  inferInstanceAs (Decidable (∀ a ∈ earlier, ∀ b ∈ later, _ → _ → _))

def Delivery.nodes (d : Delivery) : List WireNode := d.world.db.nodes.map Node.toProto

/-- The client holds what the session was sent, and every peer it holds is a snapshot of a node of
the past states. -/
structure InSync (past : List (List WireNode)) (s : Session WireNode) : Prop where
  same : s.client = s.sent.peers
  ids : ∀ (id : Nat) (peer : WireNode), s.sent.peers[id]? = some peer → peer.id = id
  seen : ∀ (id : Nat) (peer : WireNode), s.sent.peers[id]? = some peer →
    ∃ nodes ∈ past, ∃ a ∈ nodes, SameNode a peer ∧ a.lastSeen = peer.lastSeen

theorem InSync.mono {past past' : List (List WireNode)} {s : Session WireNode}
    (h : InSync past s) (hpast : past ⊆ past') : InSync past' s where
  same := h.same
  ids := h.ids
  seen id peer hpeer := by
    obtain ⟨nodes, hnodes, rest⟩ := h.seen id peer hpeer
    exact ⟨nodes, hpast hnodes, rest⟩

section Peers

variable {nodeId version : Nat} {past : List (List WireNode)} {s : Session WireNode}

theorem same_node_of_patch {cp : ControlPlane} {w : World} {stored : Node} {a prev : WireNode}
    {prevExpiry expiry : Option String} {change : PeerChange} (ha : SameNode a prev)
    (hid : prev.id = (cp.peerOf w version stored).id)
    (hdiff : diffPeers prev (cp.peerOf w version stored) prevExpiry expiry = .patch change) :
    SameNode a stored.toProto := by
  have hstructural : structuralEqual prev (cp.peerOf w version stored) = true := by
    rw [← Bool.not_eq_false, ← diff_peers_full_iff, hdiff]
    exact PeerDiff.noConfusion
  have heq := eq_of_structural_equal hid hstructural
  obtain ⟨hid', hmachine, hcreated⟩ := ha
  refine ⟨hid'.trans (hid.trans (id_peer_of stored)), hmachine.trans ?_, hcreated.trans ?_⟩
  · exact (congrArg WireNode.machine heq).trans (peer_of_fields stored).2.1
  · exact (congrArg WireNode.created heq).trans (peer_of_fields stored).2.2.1

theorem InSync.kept_eq (h : InSync past s) {d : Delivery}
    (hseen : ∀ nodes ∈ past, LastSeenKept nodes d.nodes) {own stored : Node}
    (hstored : stored ∈ d.server.peerRows d.world own) (policy : Bool) :
    (peerClient nodeId version).kept s policy stored.id
        (d.server.peerOf d.world version stored) stored.keyExpiry =
      some (d.server.peerOf d.world version stored) := by
  unfold Client.kept entryDiff
  cases policy with
  | true => rfl
  | false =>
    simp only [Bool.false_eq_true, if_false]
    rw [h.same]
    cases hprev : s.sent.peers[stored.id]? with
    | none => rfl
    | some prev =>
      have hid : prev.id = (d.server.peerOf d.world version stored).id := by
        rw [id_peer_of, h.ids _ _ hprev]
      dsimp only
      cases hdiff : diffPeers prev (d.server.peerOf d.world version stored)
          ((s.sent.keyExpiry[stored.id]?).join) stored.keyExpiry with
      | full => rfl
      | unchanged => simp only [eq_of_diff_unchanged hid hdiff]
      | patch change =>
        refine congrArg some (apply_patch_of_diff hid (by simp) (fun hsome => ?_) hdiff)
        obtain ⟨nodes, hnodes, a, ha, hsame, hlast⟩ := h.seen _ _ hprev
        rw [(peer_of_fields stored).2.2.2.1]
        exact hseen nodes hnodes a ha stored.toProto
          (List.mem_map_of_mem (List.mem_filter.mp hstored).1)
          (same_node_of_patch hsame hid hdiff) (hlast ▸ hsome)

theorem InSync.client_rescan (h : InSync past s) {d : Delivery}
    (hseen : ∀ nodes ∈ past, LastSeenKept nodes d.nodes) {own : Node}
    (hrescan : (peerClient nodeId version).Rescans d own) (id : Nat) :
    ((peerClient nodeId version).deliver s d).client[id]? =
      ((d.server.nextPeers d.world own version)[id]?).map Prod.fst := by
  rw [hrescan.getElem?_client (fun _ hid => h.same ▸ hid)]
  change ((d.server.nextPeers d.world own version)[id]?).bind _ = _
  cases hnext : (d.server.nextPeers d.world own version)[id]? with
  | none => rfl
  | some value =>
    obtain ⟨stored, hstored, rfl, rfl⟩ := getElem?_next_peers.mp hnext
    exact h.kept_eq hseen hstored _

theorem InSync.deliver (h : InSync past s) {d : Delivery}
    (hseen : ∀ nodes ∈ past, LastSeenKept nodes d.nodes) :
    InSync (past ++ [d.nodes]) ((peerClient nodeId version).deliver s d) := by
  by_cases hrescan : ∃ own, (peerClient nodeId version).Rescans d own
  · obtain ⟨own, hrescan⟩ := hrescan
    have hsent := hrescan.sent_peers s
    refine ⟨?_, ?_, ?_⟩
    · refine Std.ExtTreeMap.ext_getElem? fun id => ?_
      rw [hsent, h.client_rescan hseen hrescan]
      rfl
    · intro id peer hpeer
      rw [hsent, Option.map_eq_some_iff] at hpeer
      obtain ⟨value, hvalue, rfl⟩ := hpeer
      exact own_ids_next_peers id value hvalue
    · intro id peer hpeer
      rw [hsent, Option.map_eq_some_iff] at hpeer
      obtain ⟨value, hvalue, rfl⟩ := hpeer
      obtain ⟨stored, hstored, rfl, rfl⟩ := getElem?_next_peers.mp hvalue
      exact ⟨d.nodes, by simp, stored.toProto,
        List.mem_map_of_mem (List.mem_filter.mp hstored).1, ⟨by simp [Node.toProto],
        by simp [Node.toProto], by simp [Node.toProto]⟩, by simp [Node.toProto]⟩
  · rw [Client.deliver_idle _ (not_exists.mp hrescan)]
    exact h.mono (List.subset_append_left _ _)

theorem in_sync_start (peers : List WireNode) :
    InSync [peers] ((peerClient nodeId version).start peers) := by
  have hmem : ∀ (id : Nat) (peer : WireNode),
      (SessionPeers.fromPeers peers).peers[id]? = some peer → peer ∈ peers ∧ peer.id = id := by
    intro id peer hpeer
    induction peers using List.reverseRecOn with
    | nil => simp [SessionPeers.fromPeers] at hpeer
    | append_singleton peers last ih =>
      simp only [SessionPeers.fromPeers, List.foldl_append, List.foldl_cons, List.foldl_nil,
        Std.ExtTreeMap.getElem?_insert, Std.compare_eq_iff_eq] at hpeer
      split at hpeer
      case isTrue hid =>
        cases hpeer
        exact ⟨by simp, hid⟩
      case isFalse =>
        have hbefore := ih hpeer
        exact ⟨List.mem_append_left _ hbefore.1, hbefore.2⟩
  refine ⟨rfl, fun id peer hpeer => (hmem id peer hpeer).2, fun id peer hpeer => ?_⟩
  exact ⟨peers, by simp, peer, (hmem id peer hpeer).1, ⟨rfl, rfl, rfl⟩, rfl⟩

theorem in_sync_follow {peers : List WireNode} {ds : List Delivery}
    (hseen : (peers :: ds.map Delivery.nodes).Pairwise LastSeenKept) :
    InSync (peers :: ds.map Delivery.nodes)
      ((peerClient nodeId version).follow ((peerClient nodeId version).start peers) ds) := by
  induction ds using List.reverseRecOn with
  | nil => exact in_sync_start peers
  | append_singleton ds d ih =>
    rw [List.map_append, ← List.cons_append, List.pairwise_append] at hseen
    rw [Client.follow_append, List.map_append, ← List.cons_append]
    exact (ih hseen.1).deliver fun nodes hnodes => hseen.2.2 nodes hnodes _ (by simp)

/-- After every batch that concerns the peers, a client that started from the first frame's peers
and applied every update holds exactly the current peers: the authorized and visible nodes other
than its own, each under its id and as `peerNode` builds it at that moment. -/
theorem peer_deltas_converge {peers : List WireNode} {ds : List Delivery} {d : Delivery}
    {own : Node} (hseen : (peers :: (ds ++ [d]).map Delivery.nodes).Pairwise LastSeenKept)
    (hbatch : d.batch.needsPeerRescan = true) (hown : d.world.db.getNodeById nodeId = some own)
    (id : Nat) (peer : WireNode) :
    ((peerClient nodeId version).follow ((peerClient nodeId version).start peers)
        (ds ++ [d])).client[id]? = some peer ↔
      ∃ stored ∈ d.world.db.nodes,
        ControlPlane.isPeer own (d.server.visibleOf d.world own) stored = true ∧ stored.id = id ∧
          exec (d.server.peerNode stored version) d.world = (.ok peer, d.world) := by
  rw [List.map_append, ← List.cons_append, List.pairwise_append] at hseen
  rw [Client.follow_append, (in_sync_follow hseen.1).client_rescan
    (fun nodes hnodes => hseen.2.2 nodes hnodes _ (by simp)) ⟨hbatch, hown⟩,
    Option.map_eq_some_iff]
  constructor
  · rintro ⟨value, hvalue, rfl⟩
    obtain ⟨stored, hstored, rfl, rfl⟩ := getElem?_next_peers.mp hvalue
    obtain ⟨hmem, hpeer⟩ := List.mem_filter.mp hstored
    exact ⟨stored, hmem, hpeer, rfl, reads_peer_node _ _ _ _⟩
  · rintro ⟨stored, hmem, hpeer, rfl, hrun⟩
    have hvalue : d.server.peerOf d.world version stored = peer := by
      rw [exec, reads_peer_node] at hrun
      simpa using hrun
    exact ⟨(peer, stored.keyExpiry), getElem?_next_peers.mpr
      ⟨stored, List.mem_filter.mpr ⟨hmem, hpeer⟩, rfl, by rw [hvalue]⟩, rfl⟩

end Peers

def openServer : ControlPlane where
  config :=
    { derpMap := {}
      policy := { acls := [{ action := "accept", src := ["*"], dst := ["*:*"] }] } }
  ext :=
    { formatRfc3339 := fun _ => ""
      parseFromRfc3339 := fun _ => none
      blake2b512 := id
      encodeError := fun _ _ => none }

def stillEnv : Env where
  clock _ := 0
  secrets _ := "token"
  salts _ := []
  draws position := position

def plainNode (id : Nat) : Node where
  id := id
  stableId := Db.stableIdOf id
  name := ""
  userId := none
  nodeKey := ⟨id⟩
  machineKey := ⟨id⟩
  discoKey := ⟨0⟩
  addresses := []
  allowedIps := none
  endpoints := []
  endpointTypes := []
  homeDerp := 1
  hostinfo := none
  created := ""
  cap := 113
  tags := none
  advertisedRoutes := []
  approvedRoutes := []
  machineAuthorized := true
  ephemeral := false
  lastSeen := some ""
  keyExpiry := none

/-- Two nodes, of which the second has a key that expires. -/
def pairDb : Db where
  nodes := [plainNode 1, { plainNode 2 with keyExpiry := some "2030-01-01T00:00:00Z" }]
  valid := by decide

/-- The second node was just added. -/
def joined : Delivery where
  server := openServer
  world := openServer.withStore pairDb stillEnv
  batch := { events := [.nodeChanged 2] }

/-- The new node reaches the client of the first one. -/
theorem peer_deltas_converge_joined :
    ((peerClient 1 113).follow ((peerClient 1 113).start []) ([] ++ [joined])).client[2]? =
      some (openServer.peerOf joined.world 113 (plainNode 2)) :=
  (peer_deltas_converge (by decide) rfl
    (rfl : joined.world.db.getNodeById 1 = some (plainNode 1)) 2 _).mpr
    ⟨{ plainNode 2 with keyExpiry := some "2030-01-01T00:00:00Z" }, by decide,
      by decide +kernel, rfl, reads_peer_node _ _ _ _⟩

/-! ## Key expiries -/

def expiryClient (nodeId version : Nat) : Client (Option String) where
  nodeId := nodeId
  version := version
  onPut _ := none
  onPatch change known := change.keyExpiry.or known

def KnowsExpiries (s : Session (Option String)) (w : World) : Prop :=
  ∀ (id : Nat) (known : Option String), s.client[id]? = some known →
    ∃ stored ∈ w.db.nodes, stored.id = id ∧ stored.keyExpiry = known

/-- A peer that an update sends in full: every peer of a policy change, and otherwise a peer that is
new to the session or differs from the snapshot sent before in more than a patch can carry. -/
def SentInFull (version : Nat) (sent : SessionPeers) (d : Delivery) (stored : Node) : Prop :=
  d.batch.hasPolicy = true ∨ ∀ prev, sent.peers[stored.id]? = some prev →
    structuralEqual prev (d.server.peerOf d.world version stored) = false

/-- No key expiry is lost by a delivery: a peer sent in full has none, and no other peer's went
from a time to nothing since it was last recorded. -/
structure ExpiriesCarried (version : Nat) (sent : SessionPeers) (d : Delivery) (own : Node) :
    Prop where
  full : ∀ stored ∈ d.server.peerRows d.world own, SentInFull version sent d stored →
    stored.keyExpiry = none
  kept : ∀ stored ∈ d.server.peerRows d.world own, ¬SentInFull version sent d stored →
    ((sent.keyExpiry[stored.id]?).join).isSome → stored.keyExpiry.isSome

/-- The client knows for every sent peer the key expiry that the session recorded. -/
def Tracked (s : Session (Option String)) : Prop :=
  ∀ id : Nat, s.client[id]? = (s.sent.peers[id]?).map fun _ => (s.sent.keyExpiry[id]?).join

section Expiries

variable {nodeId version : Nat} {s : Session (Option String)} {d : Delivery} {own : Node}

theorem kept_full {stored : Node} (hfull : SentInFull version s.sent d stored) :
    (expiryClient nodeId version).kept s d.batch.hasPolicy stored.id
      (d.server.peerOf d.world version stored) stored.keyExpiry = some none := by
  unfold Client.kept entryDiff
  obtain hpolicy | hfull := hfull
  · rw [hpolicy]; rfl
  · cases d.batch.hasPolicy with
    | true => rfl
    | false =>
      cases hprev : s.sent.peers[stored.id]? with
      | none => rfl
      | some prev => simp [diff_peers_full_iff.mpr (hfull prev hprev), expiryClient]

theorem Tracked.kept_other (h : Tracked s) {stored : Node}
    (hfull : ¬SentInFull version s.sent d stored) :
    (expiryClient nodeId version).kept s d.batch.hasPolicy stored.id
        (d.server.peerOf d.world version stored) stored.keyExpiry =
      some ((if (s.sent.keyExpiry[stored.id]?).join = stored.keyExpiry then none
        else stored.keyExpiry).or (s.sent.keyExpiry[stored.id]?).join) := by
  simp only [SentInFull, not_or, not_forall, Bool.not_eq_true, Bool.not_eq_false] at hfull
  obtain ⟨hpolicy, prev, hprev, hstructural⟩ := hfull
  unfold Client.kept entryDiff
  rw [hpolicy, h stored.id, hprev]
  simp only [Bool.false_eq_true, if_false, Option.map_some]
  cases hdiff : diffPeers prev (d.server.peerOf d.world version stored)
      ((s.sent.keyExpiry[stored.id]?).join) stored.keyExpiry with
  | full => rw [diff_peers_full_iff.mp hdiff] at hstructural; cases hstructural
  | unchanged =>
    simp [key_expiry_eq_of_diff_unchanged hdiff]
  | patch change => simp only [expiryClient, key_expiry_of_diff hdiff]

theorem Tracked.kept_eq_iff (h : Tracked s) (stored : Node) :
    (expiryClient nodeId version).kept s d.batch.hasPolicy stored.id
        (d.server.peerOf d.world version stored) stored.keyExpiry = some stored.keyExpiry ↔
      (SentInFull version s.sent d stored → stored.keyExpiry = none) ∧
        (¬SentInFull version s.sent d stored →
          ((s.sent.keyExpiry[stored.id]?).join).isSome → stored.keyExpiry.isSome) := by
  by_cases hfull : SentInFull version s.sent d stored
  · rw [kept_full hfull, Option.some_inj, eq_comm]
    simp [hfull]
  · rw [h.kept_other hfull, Option.some_inj]
    simp only [hfull, false_imp_iff, not_false_eq_true, true_imp_iff, true_and]
    refine ⟨fun heq hsome => ?_, or_new_value⟩
    rw [← heq, Option.isSome_or, hsome, Bool.or_true]

theorem Tracked.mem_sent (h : Tracked s) (id : Nat) (hid : id ∈ s.client) : id ∈ s.sent.peers := by
  rw [Std.ExtTreeMap.mem_iff_isSome_getElem?, h id, Option.isSome_map] at hid
  exact Std.ExtTreeMap.mem_iff_isSome_getElem?.mpr hid

/-- After a rescan the client knows the key expiries exactly when it was kept the right one for
each peer. -/
theorem Tracked.knows_iff_kept (h : Tracked s)
    (hrescan : (expiryClient nodeId version).Rescans d own) :
    KnowsExpiries ((expiryClient nodeId version).deliver s d) d.world ↔
      ∀ stored ∈ d.server.peerRows d.world own,
        (expiryClient nodeId version).kept s d.batch.hasPolicy stored.id
          (d.server.peerOf d.world version stored) stored.keyExpiry = some stored.keyExpiry := by
  have hclient := hrescan.getElem?_client h.mem_sent
  constructor
  · intro hknows stored hstored
    have hnext := getElem?_next_peers.mpr
      ⟨stored, hstored, rfl, (rfl : (d.server.peerOf d.world version stored, stored.keyExpiry) = _)⟩
    have hkept := (hclient stored.id).trans (congrArg (Option.bind · _) hnext)
    -- Whatever the verdict, the client keeps some expiry, so what it knows is about this row.
    obtain ⟨known, hknown⟩ : ∃ known, (expiryClient nodeId version).kept s d.batch.hasPolicy
        stored.id (d.server.peerOf d.world version stored) stored.keyExpiry = some known := by
      by_cases hfull : SentInFull version s.sent d stored
      · exact ⟨_, kept_full hfull⟩
      · exact ⟨_, h.kept_other hfull⟩
    obtain ⟨other, hother, hid, rfl⟩ := hknows stored.id known (hkept.trans hknown)
    rw [hknown, List.inj_on_of_nodup_map (Db.nodup_node_ids d.world.db) hother
      (List.mem_filter.mp hstored).1 hid]
  · intro hkept id known hknown
    rw [hclient, Option.bind_eq_some_iff] at hknown
    obtain ⟨value, hvalue, hknown⟩ := hknown
    obtain ⟨stored, hstored, rfl, rfl⟩ := getElem?_next_peers.mp hvalue
    exact ⟨stored, (List.mem_filter.mp hstored).1, rfl,
      Option.some_inj.mp ((hkept stored hstored).symm.trans hknown)⟩

theorem Tracked.knows_iff_carried (h : Tracked s)
    (hrescan : (expiryClient nodeId version).Rescans d own) :
    KnowsExpiries ((expiryClient nodeId version).deliver s d) d.world ↔
      ExpiriesCarried version s.sent d own := by
  rw [h.knows_iff_kept hrescan]
  simp only [h.kept_eq_iff]
  exact ⟨fun h => ⟨fun stored hs => (h stored hs).1, fun stored hs => (h stored hs).2⟩,
    fun h stored hs => ⟨h.full stored hs, h.kept stored hs⟩⟩

/-- A delivery that carries every key expiry keeps the client's knowledge and the session's record
equal. -/
theorem Tracked.deliver (h : Tracked s)
    (hcarried : ∀ own, (expiryClient nodeId version).Rescans d own →
      ExpiriesCarried version s.sent d own) :
    Tracked ((expiryClient nodeId version).deliver s d) := by
  by_cases hrescan : ∃ own, (expiryClient nodeId version).Rescans d own
  · obtain ⟨own, hrescan⟩ := hrescan
    have hkept := (h.knows_iff_kept hrescan).mp ((h.knows_iff_carried hrescan).mpr
      (hcarried own hrescan))
    intro id
    rw [hrescan.getElem?_client h.mem_sent, hrescan.sent_peers]
    cases hnext : (d.server.nextPeers d.world own (expiryClient nodeId version).version)[id]? with
    | none => rfl
    | some value =>
      rw [hrescan.sent_key_expiry s hnext]
      obtain ⟨stored, hstored, rfl, rfl⟩ := getElem?_next_peers.mp hnext
      exact hkept stored hstored
  · rw [Client.deliver_idle _ (not_exists.mp hrescan)]
    exact h

theorem tracked_start (peers : List WireNode) :
    Tracked ((expiryClient nodeId version).start peers) := by
  intro id
  simp only [Client.start, SessionPeers.fromPeers, Std.ExtTreeMap.getElem?_empty, Option.join_none]
  induction peers using List.reverseRecOn with
  | nil => simp
  | append_singleton peers last ih =>
    simp only [List.foldl_append, List.foldl_cons, List.foldl_nil,
      Std.ExtTreeMap.getElem?_insert, Std.compare_eq_iff_eq]
    split
    case isTrue => rfl
    case isFalse => exact ih

def EveryBatch (ds : List Delivery) (P : List Delivery → Delivery → Prop) : Prop :=
  ∀ before d, before ++ [d] <+: ds → P before d

theorem tracked_follow (nodeId version : Nat) (peers : List WireNode) {ds : List Delivery}
    (hcarried : EveryBatch ds fun before d => ∀ own,
      (expiryClient nodeId version).Rescans d own →
        Tracked ((expiryClient nodeId version).follow
          ((expiryClient nodeId version).start peers) before) →
        ExpiriesCarried version ((expiryClient nodeId version).follow
          ((expiryClient nodeId version).start peers) before).sent d own) :
    Tracked ((expiryClient nodeId version).follow
      ((expiryClient nodeId version).start peers) ds) := by
  induction ds using List.reverseRecOn with
  | nil => exact tracked_start peers
  | append_singleton ds d ih =>
    have htracked := ih fun before other hother =>
      hcarried before other (hother.trans (List.prefix_append ds [d]))
    rw [Client.follow_append]
    exact htracked.deliver fun own hrescan => hcarried ds d List.prefix_rfl own hrescan htracked

/-- A client knows its peers' key expiries after every batch exactly when every batch carries them:
a peer sent in full has no key expiry, and no other peer loses the one recorded for it. -/
theorem key_expiry_known_iff (nodeId version : Nat) (peers : List WireNode) (ds : List Delivery) :
    (EveryBatch ds fun before d => ∀ own, (expiryClient nodeId version).Rescans d own →
      KnowsExpiries ((expiryClient nodeId version).follow
        ((expiryClient nodeId version).start peers) (before ++ [d])) d.world) ↔
      EveryBatch ds fun before d => ∀ own, (expiryClient nodeId version).Rescans d own →
        ExpiriesCarried version ((expiryClient nodeId version).follow
          ((expiryClient nodeId version).start peers) before).sent d own := by
  simp only [Client.follow_append]
  constructor
  · intro hknows before d hprefix own hrescan
    have htracked := tracked_follow nodeId version peers
      fun earlier other hother own hrescan htracked =>
        (htracked.knows_iff_carried hrescan).mp (hknows earlier other
          (hother.trans ((List.prefix_append before [d]).trans hprefix)) own hrescan)
    exact (htracked.knows_iff_carried hrescan).mp (hknows before d hprefix own hrescan)
  · intro hcarried before d hprefix own hrescan
    have htracked := tracked_follow nodeId version peers fun earlier other hother own hrescan _ =>
        hcarried earlier other (hother.trans ((List.prefix_append before [d]).trans hprefix)) own
          hrescan
    exact (htracked.knows_iff_carried hrescan).mpr (hcarried before d hprefix own hrescan)

end Expiries

/-- The first node's client is not told when the new node's key expires. -/
theorem key_expiry_unknown :
    ¬KnowsExpiries ((expiryClient 1 113).follow ((expiryClient 1 113).start []) [joined])
      joined.world := by
  intro hknows
  have hclient : ((expiryClient 1 113).follow ((expiryClient 1 113).start [])
      [joined]).client[2]? = some none := by decide +kernel
  obtain ⟨stored, hstored, hid, hexpiry⟩ := hknows 2 none hclient
  revert stored
  decide

end Crabscale.Control
