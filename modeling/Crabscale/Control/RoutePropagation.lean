import Crabscale.Control.Addresses

/-!
# Routes in maps and updates

A peer is sent with the routes that its row advertises and that an administrator or the policy
approved. `RouteColumn` says what the two columns hold from which the builders start; with it a peer
of a map or an update carries its addresses and exactly its routes (`routes_propagated`).
-/

namespace Crabscale.Control

open Rust Proto Policy Interaction ControlPlane

variable {cp : ControlPlane} {w : World}

/-! ## The columns that routes are read from -/

/-- A row is allowed its addresses, and advertises routes in their canonical form. -/
abbrev RouteColumn : Db → Prop :=
  Column (fun node => (node.addresses, node.allowedIps, node.advertisedRoutes))
    (fun cells => cells.2.1 = some cells.1 ∧
      ∀ route ∈ cells.2.2, canonicalRoute route = some route)
    fun _ _ => True

theorem canonical_of_mem_route_list {hostinfo : Option Hostinfo} {route : String}
    (h : route ∈ routeList hostinfo) : canonicalRoute route = some route := by
  rw [routeList, mem_sort_dedup] at h
  obtain ⟨text, -, htext⟩ := List.mem_filterMap.mp h
  exact canonical_route_canonical htext

theorem RouteColumn.of_placed {node : Node} (h : RouteColumn w.db)
    (hplaced : Placed cp w.db.nodes node) :
    node.allowedIps = some node.addresses ∧
      ∀ route ∈ node.advertisedRoutes, canonicalRoute route = some route := by
  cases hplaced with
  | kept hrow _ haddresses _ hroutes =>
    obtain ⟨hallowed, hcanonical⟩ := h.each _ hrow
    refine ⟨?_, ?_⟩
    · rw [← hroutes.allowedIps, ← haddresses]
      exact hallowed
    · obtain hsame | ⟨hostinfo, hnew⟩ := hroutes.advertised
      · rw [hsame]
        exact hcanonical
      · rw [hnew]
        exact fun route => canonical_of_mem_route_list
  | new _ _ _ hallowed hadvertised =>
    obtain ⟨hostinfo, hnew⟩ := hadvertised
    rw [hnew]
    exact ⟨hallowed, fun route => canonical_of_mem_route_list⟩

theorem RouteColumn.step {op : Op} (h : RouteColumn w.db) : RouteColumn (op.exec cp w).db := by
  refine (op.places w).invariant (I := fun w => RouteColumn w.db) (fun w' c hw' hc => ?_) h
  refine hw'.call (fun _ _ _ => rfl) (fun _ _ _ => trivial) fun node hnode => ?_
  subst hnode
  exact .inr ⟨RouteColumn.of_placed hw' hc, fun _ _ _ => trivial⟩

theorem RouteColumn.of_runs {env : Env}
    (hrun : Runs cp (fun _ _ => True) (fun _ => True) (cp.withStore Db.empty env) w) :
    RouteColumn w.db := by
  induction hrun with
  | refl _ => exact Column.empty
  | step _ _ _ ih => exact ih.step

/-! ## One peer -/

def ApprovedRoute (cp : ControlPlane) (w : World) (stored : Node) (route : String) : Prop :=
  route ∈ stored.advertisedRoutes ∧
    (route ∈ stored.approvedRoutes ∨
      route ∈ autoApprovedRoutes cp.config.policy (w.compileNode stored) stored.advertisedRoutes)

structure CarriesRoutes (cp : ControlPlane) (w : World) (stored : Node) (peer : WireNode) :
    Prop where
  id : peer.id = stored.id
  addresses : peer.addresses = stored.addresses
  -- Allowed addresses that are left out are the addresses.
  allowedIps : ∀ ip, ip ∈ peer.allowedIps.getD peer.addresses ↔
    ip ∈ stored.addresses ∨ ApprovedRoute cp w stored ip
  primaryRoutes : ∀ route, route ∈ peer.primaryRoutes ↔
    ApprovedRoute cp w stored route ∧ route ∉ stored.addresses

section Peer

variable {stored : Node}

theorem mem_routes_of (hcanonical : ∀ route ∈ stored.advertisedRoutes,
    canonicalRoute route = some route)
    {route : String} : route ∈ cp.routesOf w stored ↔ ApprovedRoute cp w stored route := by
  rw [routesOf, mem_sort_dedup, List.mem_append, mem_sort_dedup, List.mem_filter,
    decide_eq_true_iff]
  constructor
  · rintro (⟨happroved, hadvertised⟩ | hauto)
    · exact ⟨hadvertised, .inl happroved⟩
    · exact ⟨mem_of_mem_auto_approved hcanonical hauto, .inr hauto⟩
  · rintro ⟨hadvertised, happroved | hauto⟩
    · exact .inl ⟨happroved, hadvertised⟩
    · exact .inr hauto

theorem getD_allowed_ips_for (version : Nat) (addresses : List String)
    (allowed : Option (List String)) :
    (allowedIpsFor version addresses allowed).getD addresses = allowed.getD addresses := by
  unfold allowedIpsFor
  dsimp only
  split
  · rename_i hnull
    rw [Bool.and_eq_true, beq_iff_eq] at hnull
    exact hnull.2.symm
  · rfl

theorem carries_routes_peer_of (hallowed : stored.allowedIps = some stored.addresses)
    (hcanonical : ∀ route ∈ stored.advertisedRoutes, canonicalRoute route = some route)
    (version : Nat) : CarriesRoutes cp w stored (cp.peerOf w version stored) := by
  have hroute (route : String) : route ∈ cp.routesOf w stored ↔ ApprovedRoute cp w stored route :=
    mem_routes_of hcanonical
  have haddresses : (cp.peerOf w version stored).addresses = stored.addresses := by
    unfold peerOf routedPeer
    dsimp only
    split <;> rfl
  refine ⟨id_peer_of stored, haddresses, fun ip => ?_, fun route => ?_⟩
  · have hread : (cp.peerOf w version stored).allowedIps.getD
      (cp.peerOf w version stored).addresses =
        (cp.routedPeer w stored).allowedIps.getD stored.addresses := by
      rw [haddresses]
      exact getD_allowed_ips_for _ _ _
    rw [hread, ← hroute]
    unfold routedPeer
    dsimp only
    split
    · rename_i hnone
      rw [hnone]
      simp [Node.toProto, hallowed]
    · rw [Option.getD_some, mem_sort_dedup, List.mem_append]
  · rw [← hroute]
    unfold peerOf routedPeer
    dsimp only
    split
    · rename_i hnone
      rw [hnone]
      simp [Node.toProto]
    · rw [nonAddressRoutes, List.mem_filter, decide_eq_true_iff]

end Peer

/-! ## Maps and updates -/

def fullPeers (response : MapResponse) : List WireNode :=
  response.peers.getD [] ++ response.peersChanged.getD []

inductive Builds (cp : ControlPlane) (w : World) (version : Nat) (response : MapResponse) :
    Prop where
  | map (node : Node) (request : MapRequest) (hversion : request.version = version)
      (h : (exec (cp.buildInitialMap node request) w).1 = .ok response)
  | delta (nodeId : Nat) (batch : ChangeBatch) (sent sent' : SessionPeers)
      (h : (exec (cp.buildDelta nodeId batch sent version) w).1 = .ok (some response, sent'))

theorem mem_initial_map {node : Node} {version : Nat} {peer : WireNode}
    (h : peer ∈ fullPeers (cp.initialMapOf w node version)) :
    ∃ stored ∈ w.db.nodes, peer = cp.peerOf w version stored := by
  have hpeer : peer ∈ ((cp.peerRows w node).map (cp.peerOf w version)).insertionSort
      (fun a b => a.id ≤ b.id) := by
    simpa [fullPeers, initialMapOf] using h
  obtain ⟨stored, hstored, rfl⟩ := List.mem_map.mp ((List.mem_insertionSort _).mp hpeer)
  exact ⟨stored, List.mem_of_mem_filter hstored, rfl⟩

theorem mem_next_peers {node : Node} {version : Nat} {entry : Nat × WireNode × Option String}
    (h : entry ∈ (cp.nextPeers w node version).toList) :
    ∃ stored ∈ w.db.nodes, entry.2.1 = cp.peerOf w version stored := by
  obtain ⟨id, value⟩ := entry
  rw [Std.ExtTreeMap.mem_toList_iff_getElem?_eq_some] at h
  obtain ⟨stored, hstored, -, rfl⟩ := getElem?_next_peers.mp h
  exact ⟨stored, List.mem_of_mem_filter hstored, rfl⟩

theorem mem_delta_of {node : Node} {batch : ChangeBatch} {sent : SessionPeers} {version : Nat}
    {response : MapResponse} (hresponse : cp.deltaOf w node batch sent version = some response)
    {peer : WireNode} (h : peer ∈ fullPeers response) :
    ∃ stored ∈ w.db.nodes, peer = cp.peerOf w version stored := by
  unfold deltaOf peerDeltaOf at hresponse
  rw [diff_session_eq] at hresponse
  dsimp only at hresponse
  split at hresponse
  · cases hresponse
    have hpeer : peer ∈ (cp.nextPeers w node version).toList.map fun entry => entry.2.1 := by
      simpa [fullPeers, policyDeltaOf, namedPartsOf] using h
    obtain ⟨entry, hentry, rfl⟩ := List.mem_map.mp hpeer
    exact mem_next_peers hentry
  · rw [eq_of_non_empty hresponse] at h
    have hpeer : peer ∈ (cp.nextPeers w node version).toList.filterMap (changedBy sent) := by
      simpa [fullPeers, peerDelta, namedPartsOf,
        getD_non_empty_list] using h
    obtain ⟨entry, hentry, hchanged⟩ := List.mem_filterMap.mp hpeer
    unfold changedBy at hchanged
    split at hchanged
    · cases hchanged
      exact mem_next_peers hentry
    · cases hchanged
    · cases hchanged

theorem Builds.peer_of {version : Nat} {response : MapResponse} (h : Builds cp w version response)
    {peer : WireNode} (hpeer : peer ∈ fullPeers response) :
    ∃ stored ∈ w.db.nodes, peer = cp.peerOf w version stored := by
  cases h with
  | map node request hversion h =>
    rw [exec, reads_build_initial_map cp node request w] at h
    cases h
    rw [← hversion]
    exact mem_initial_map hpeer
  | delta nodeId batch sent sent' h =>
    obtain ⟨-, rfl⟩ | ⟨node, -, hbuilt⟩ := build_delta_cases h
    · cases hpeer
    · exact mem_delta_of hbuilt hpeer

/-- In every run from an empty store, every peer of a map or of an update carries its addresses and
exactly the routes that it advertises and that are approved, and it is the same in every map and
update for the version. -/
theorem routes_propagated {env : Env}
    (hrun : Runs cp (fun _ _ => True) (fun _ => True) (cp.withStore Db.empty env) w)
    {version : Nat} {response : MapResponse} (hbuilt : Builds cp w version response)
    {peer : WireNode} (hpeer : peer ∈ fullPeers response) :
    (∃ stored ∈ w.db.nodes, CarriesRoutes cp w stored peer) ∧
      ∀ other, Builds cp w version other → ∀ peer' ∈ fullPeers other, peer'.id = peer.id →
        peer' = peer := by
  obtain ⟨stored, hstored, rfl⟩ := hbuilt.peer_of hpeer
  obtain ⟨hallowed, hcanonical⟩ := (RouteColumn.of_runs hrun).each stored hstored
  refine ⟨⟨stored, hstored, carries_routes_peer_of hallowed hcanonical version⟩, ?_⟩
  intro other hother peer' hpeer' hid
  obtain ⟨stored', hstored', rfl⟩ := hother.peer_of hpeer'
  rw [id_peer_of, id_peer_of] at hid
  rw [List.inj_on_of_nodup_map (Db.nodup_node_ids w.db) hstored' hstored hid]

/-- The second node advertises a route, in a spelling that is not canonical, and it is approved. -/
def routeApproved : World :=
  runOps openServer
    [registerFirst,
      .register ⟨2⟩ { registerRequest 2 with
        hostinfo := some { routableIps := some ["10.1.2.3/24", "10.9.0.0/16"] } },
      .approveRoute ⟨2⟩ "10.1.2.0/24"]
    (openServer.withStore Db.empty stillEnv)

/-- The first node is sent the second with the approved route. -/
theorem routes_propagated_approved :
    ∃ node response peer, Builds openServer routeApproved 113 response ∧
      routeApproved.db.getNodeById 1 = some node ∧ peer ∈ fullPeers response ∧
      peer.id = 2 ∧ peer.primaryRoutes = ["10.1.2.0/24"] ∧
      ∃ stored ∈ routeApproved.db.nodes, CarriesRoutes openServer routeApproved stored peer := by
  have hsome : (routeApproved.db.getNodeById 1).any (fun node =>
      (fullPeers (openServer.initialMapOf routeApproved node 113)).any fun peer =>
        peer.id == 2 && peer.primaryRoutes == ["10.1.2.0/24"]) = true := by
    decide +kernel
  rw [Option.any_eq_true] at hsome
  obtain ⟨node, hnode, hpeers⟩ := hsome
  rw [List.any_eq_true] at hpeers
  obtain ⟨peer, hpeer, hshape⟩ := hpeers
  rw [Bool.and_eq_true, beq_iff_eq, beq_iff_eq] at hshape
  have hbuilt : Builds openServer routeApproved 113
    (openServer.initialMapOf routeApproved node 113) := by
    refine .map node { version := 113, nodeKey := ⟨1⟩ } rfl ?_
    rw [exec, reads_build_initial_map]
  exact ⟨node, _, peer, hbuilt, hnode, hpeer, hshape.1, hshape.2,
    (routes_propagated (runs_ops openServer stillEnv _) hbuilt hpeer).1⟩

end Crabscale.Control
