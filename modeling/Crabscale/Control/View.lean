import Crabscale.Control.Delta

/-!
# What the map builders compute

The builders of maps and updates only read. Each gets its value as a function of the world, and a
`reads_` lemma that says the program returns that value and changes nothing.
-/

namespace Crabscale.Control

open Rust Proto Policy Interaction ControlPlane

namespace World

variable (w : World)

def ownerLogin (node : Node) : Option String :=
  node.userId.bind fun userId => (w.db.getUser userId).map User.loginName

def compileNode (node : Node) : CompileNode :=
  { id := node.id, stableId := node.stableId, userLogin := w.ownerLogin node,
    addresses := node.addresses, tags := node.tags.getD [] }

def compileNodes : List CompileNode := w.db.nodes.map w.compileNode

end World

namespace ControlPlane

variable (cp : ControlPlane) (w : World)

def routesOf (node : Node) : List String :=
  sortDedup
    (sortDedup (node.approvedRoutes.filter fun route => route ∈ node.advertisedRoutes) ++
      autoApprovedRoutes cp.config.policy (w.compileNode node) node.advertisedRoutes)

def routedPeer (stored : Node) : WireNode :=
  let node := { stored.toProto with online := some (w.sessions.isOnline stored.id) }
  if cp.routesOf w stored = [] then node
  else
    { node with
      allowedIps := some (sortDedup (stored.addresses ++ cp.routesOf w stored))
      primaryRoutes := nonAddressRoutes (cp.routesOf w stored) stored.addresses }

def peerOf (version : Nat) (stored : Node) : WireNode :=
  { cp.routedPeer w stored with
    allowedIps := allowedIpsFor version stored.addresses (cp.routedPeer w stored).allowedIps }

def visibleOf (node : Node) : BTreeSet Nat := visibleTo cp.config.policy node w.compileNodes

def peerRows (node : Node) : List Node := w.db.nodes.filter (isPeer node (cp.visibleOf w node))

def filtersOf (node : Node) : List FilterRule :=
  ((compilePolicy cp.config.policy w.compileNodes).nodeFilters[node.id]?).getD []

def profilesOf (node : Node) : List UserProfile :=
  (mapUserIds node (cp.peerRows w node)).toList.filterMap fun userId =>
    (w.db.getUser userId).map userProfile

def dnsConfigured : Bool :=
  !(!cp.config.dns.magicDns && cp.config.dns.splitDns.isEmpty &&
    cp.config.dns.searchDomains.isEmpty &&
    w.extraRecords.isEmpty)

def dnsOf : Option DnsConfig :=
  if cp.dnsConfigured w then
    some (cp.config.dns.build cp.config.tailnetDomain
      (cp.config.dns.magicDnsIpv4.getD
        (deriveMagicDnsIpv4 cp.config.ipv4Prefix cp.config.ipv4PrefixLen))
      (cp.config.dns.magicDnsIpv6.getD
        (deriveMagicDnsIpv6 cp.config.ipv6Prefix cp.config.ipv6PrefixLen))
      (w.db.nodes.map Node.toProto) w.extraRecords)
  else none

def initialMapOf (node : Node) (version : Nat) : MapResponse :=
  { node := some (cp.selfProto node version (cp.routesOf w node) w.compileNodes)
    derpMap := some w.derpMap
    domain := cp.config.tailnetDomain
    peers := some (((cp.peerRows w node).map (cp.peerOf w version)).insertionSort
      fun a b => a.id ≤ b.id)
    packetFilter := (filtersFor version (cp.filtersOf w node)).1
    packetFilters := (filtersFor version (cp.filtersOf w node)).2
    userProfiles := cp.profilesOf w node
    sshPolicy := cp.sshPolicyOf node w.compileNodes
    controlTime
    dns := cp.dnsOf w }

def nextPeers (node : Node) (version : Nat) : BTreeMap Nat (WireNode × Option String) :=
  BTreeMap.from ((cp.peerRows w node).map fun stored =>
    (stored.id, cp.peerOf w version stored, stored.keyExpiry))

def peerDeltaOf (node : Node) (sent : SessionPeers) (version : Nat) : PeerDeltas × SessionPeers :=
  diffSession (cp.visibleOf w node) (cp.nextPeers w node version) sent

def namedPartsOf (batch : ChangeBatch) : MapResponse :=
  { dns := if batch.hasDns then cp.dnsOf w else none
    derpMap := if batch.hasDerp then some w.derpMap else none }

def policyDeltaOf (node : Node) (version : Nat) (deltas : PeerDeltas) (response : MapResponse) :
    MapResponse :=
  { response with
    peers := some deltas.current
    packetFilters := some (BTreeMap.from [("base", cp.filtersOf w node)])
    sshPolicy := cp.sshPolicyOf node w.compileNodes
    node := some (cp.selfProto node version (cp.routesOf w node) w.compileNodes) }

/-- The update of a session whose own row is `node`, after a batch that concerns the peers. -/
def deltaOf (node : Node) (batch : ChangeBatch) (sent : SessionPeers) (version : Nat) :
    Option MapResponse :=
  let deltas := (cp.peerDeltaOf w node sent version).1
  if batch.hasPolicy then some (cp.policyDeltaOf w node version deltas (cp.namedPartsOf w batch))
  else nonEmpty (peerDelta batch deltas (cp.namedPartsOf w batch))

end ControlPlane

/-! ## The programs read these values -/

section Reads

variable (cp : ControlPlane)

open Program

theorem reads_store {c : StoreCall} {f : Db → c.Result} (h : ∀ db, c.exec db = (.ok (f db), db)) :
    Reads handler (store c) fun w => f w.db := by
  intro w
  simp only [store, run_call, handler, h]
  rfl

theorem reads_get_user (id : Nat) : Reads handler (store (.getUser id)) fun w => w.db.getUser id :=
  reads_store (c := .getUser id) (f := fun db => db.getUser id) fun _ => rfl

theorem reads_get_node_by_id (id : Nat) :
    Reads handler (store (.getNodeById id)) fun w => w.db.getNodeById id :=
  reads_store (c := .getNodeById id) (f := fun db => db.getNodeById id) fun _ => rfl

theorem reads_list_nodes : Reads handler (store .listNodes) fun w => w.db.nodes :=
  reads_store (c := .listNodes) (f := fun db => db.nodes) fun _ => rfl

variable (node : Node)

theorem reads_node_owner_login :
    Reads handler (nodeOwnerLogin node) fun w => w.ownerLogin node := by
  unfold nodeOwnerLogin World.ownerLogin
  cases node.userId with
  | none => exact Reads.pure none
  | some userId => exact ((reads_get_user userId).bind fun _ => Reads.pure _).congr fun _ => rfl

theorem reads_compile_node :
    Reads handler (compileNode node) fun w => w.compileNode node := by
  unfold compileNode
  exact ((reads_node_owner_login node).bind fun _ => Reads.pure _).congr fun _ => rfl

theorem reads_compile_nodes : Reads handler compileNodes World.compileNodes := by
  unfold compileNodes
  exact (reads_list_nodes.bind fun _ => Reads.mapM reads_compile_node _).congr fun _ => rfl

theorem reads_effective_approved_routes :
    Reads handler (cp.effectiveApprovedRoutes node) fun w => cp.routesOf w node := by
  unfold effectiveApprovedRoutes
  exact ((reads_compile_node node).bind fun _ => Reads.pure _).congr fun _ => rfl

theorem reads_is_online (nodeId : Nat) :
    Reads handler (memory (.isOnline nodeId)) fun w => w.sessions.isOnline nodeId :=
  Reads.perform fun _ => rfl

theorem reads_peer_node (stored : Node) (version : Nat) :
    Reads handler (cp.peerNode stored version) fun w => cp.peerOf w version stored := by
  unfold peerNode
  exact ((reads_is_online stored.id).bind fun _ =>
    (reads_effective_approved_routes cp stored).bind fun _ => Reads.pure _).congr fun _ => rfl

theorem reads_build_dns_config : Reads handler cp.buildDnsConfig cp.dnsOf := by
  unfold buildDnsConfig
  refine Reads.congr (Reads.bind (f := fun w => w.extraRecords)
    (g := fun records w => cp.dnsOf { w with extraRecords := records })
    (Reads.perform fun _ => rfl) fun records => ?_) fun w => rfl
  dsimp only
  split
  case isTrue hnone =>
    refine (Reads.pure none).congr fun w => ?_
    simp only [dnsOf, dnsConfigured, hnone]
    rfl
  case isFalse hsome =>
    refine (reads_list_nodes.bind fun nodes => Reads.pure _).congr fun w => ?_
    simp only [dnsOf, dnsConfigured, hsome]
    rfl

theorem reads_user_profiles (userIds : List Nat) :
    Reads handler (userProfiles userIds) fun w =>
      userIds.filterMap fun userId => (w.db.getUser userId).map userProfile := by
  unfold userProfiles
  refine ((Reads.mapM reads_get_user userIds).bind fun _ => Reads.pure _).congr fun w => ?_
  rw [List.filterMap_map]
  rfl

theorem reads_derp_map : Reads handler (memory .derpMap) World.derpMap := Reads.perform fun _ => rfl

theorem reads_build_initial_map (request : MapRequest) :
    Reads handler (cp.buildInitialMap node request) fun w =>
      cp.initialMapOf w node request.version := by
  unfold buildInitialMap
  exact (reads_compile_nodes.bind fun _ =>
    (reads_effective_approved_routes cp node).bind fun _ =>
      reads_list_nodes.bind fun _ =>
        (Reads.mapM (fun stored => reads_peer_node cp stored request.version) _).bind fun _ =>
          (reads_user_profiles _).bind fun _ =>
            reads_derp_map.bind fun _ =>
              (reads_build_dns_config cp).bind fun _ => Reads.pure _).congr fun _ => rfl

theorem reads_compute_peer_delta (sent : SessionPeers) (version : Nat) :
    Reads handler (cp.computePeerDelta node sent version) fun w =>
      cp.peerDeltaOf w node sent version := by
  unfold computePeerDelta
  exact (reads_compile_nodes.bind fun _ =>
    reads_list_nodes.bind fun _ =>
      (Reads.mapM (fun stored =>
        (reads_peer_node cp stored version).bind fun _ => Reads.pure _) _).bind fun _ =>
          Reads.pure _).congr fun _ => rfl

theorem reads_dns_part (batch : ChangeBatch) :
    Reads handler (cp.dnsPart batch) fun w => if batch.hasDns then cp.dnsOf w else none := by
  unfold dnsPart
  split
  · exact reads_build_dns_config cp
  · exact Reads.pure none

theorem reads_derp_part (batch : ChangeBatch) :
    Reads handler (derpPart batch)
      fun w => if batch.hasDerp then some w.derpMap else none := by
  unfold derpPart
  split
  · exact (reads_derp_map.bind fun _ => Reads.pure _).congr fun _ => rfl
  · exact Reads.pure none

theorem reads_named_parts (batch : ChangeBatch) :
    Reads handler (cp.namedParts batch) fun w => cp.namedPartsOf w batch := by
  unfold namedParts
  exact ((reads_dns_part cp batch).bind fun _ =>
    (reads_derp_part batch).bind fun _ => Reads.pure _).congr fun _ => rfl

theorem reads_base_packet_filters :
    Reads handler (cp.basePacketFilters node) fun w =>
      BTreeMap.from [("base", cp.filtersOf w node)] := by
  unfold basePacketFilters
  exact (reads_compile_nodes.bind fun _ => Reads.pure _).congr fun _ => rfl

theorem reads_ssh_policy_for :
    Reads handler (cp.sshPolicyFor node) fun w => cp.sshPolicyOf node w.compileNodes := by
  unfold sshPolicyFor
  exact (reads_compile_nodes.bind fun _ => Reads.pure _).congr fun _ => rfl

theorem reads_self_node_proto (version : Nat) :
    Reads handler (cp.selfNodeProto node version) fun w =>
      cp.selfProto node version (cp.routesOf w node) w.compileNodes := by
  unfold selfNodeProto
  refine ((reads_effective_approved_routes cp node).bind
    (g := fun routes w => cp.selfProto node version routes w.compileNodes) fun routes => ?_).congr
    fun _ => rfl
  split
  case isTrue hattrs =>
    refine (Reads.pure _).congr fun w => ?_
    unfold selfProto
    cases w.compileNodes.find? fun n => n.id == node.id <;> simp [hattrs]
  case isFalse => exact (reads_compile_nodes.bind fun _ => Reads.pure _).congr fun _ => rfl

theorem reads_policy_delta (version : Nat) (deltas : PeerDeltas)
    (response : MapResponse) :
    Reads handler (cp.policyDelta node version deltas response) fun w =>
      cp.policyDeltaOf w node version deltas response := by
  unfold policyDelta
  exact ((reads_base_packet_filters cp node).bind fun _ =>
    (reads_ssh_policy_for cp node).bind fun _ =>
      (reads_self_node_proto cp node version).bind fun _ => Reads.pure _).congr fun _ => rfl

theorem build_delta_run_other {batch : ChangeBatch} (hbatch : batch.needsPeerRescan = false)
    (sessionNodeId : Nat) (sent : SessionPeers) (version : Nat) (w : World) :
    exec (cp.buildDelta sessionNodeId batch sent version) w =
      (.ok (nonEmpty (cp.namedPartsOf w batch), sent), w) := by
  unfold buildDelta
  rw [exec, run_bind_ok handler (reads_named_parts cp batch w)]
  simp [hbatch]

theorem build_delta_run_rescan {batch : ChangeBatch} (hbatch : batch.needsPeerRescan = true)
    (sessionNodeId : Nat) (sent : SessionPeers) (version : Nat) (w : World) :
    exec (cp.buildDelta sessionNodeId batch sent version) w =
      ((w.db.getNodeById sessionNodeId).elim (.error .notFound) fun node =>
        .ok (cp.deltaOf w node batch sent version, (cp.peerDeltaOf w node sent version).2), w) := by
  unfold buildDelta
  rw [exec, run_bind_ok handler (reads_named_parts cp batch w)]
  simp only [hbatch, Bool.not_true, Bool.false_eq_true, if_false]
  rw [run_bind_ok handler (reads_get_node_by_id sessionNodeId w)]
  dsimp only
  cases w.db.getNodeById sessionNodeId with
  | none => rfl
  | some node =>
    dsimp only [Option.elim]
    rw [run_bind_ok handler (reads_compute_peer_delta cp node sent version w)]
    unfold deltaOf
    cases hpolicy : batch.hasPolicy with
    | true =>
      simp only [if_true]
      rw [run_bind_ok handler (reads_policy_delta cp node version _ _ w)]
      rfl
    | false => rfl

theorem build_delta_run {batch : ChangeBatch} (hbatch : batch.needsPeerRescan = true)
    {sessionNodeId : Nat} {w : World} {node : Node}
    (hnode : w.db.getNodeById sessionNodeId = some node) (sent : SessionPeers) (version : Nat) :
    exec (cp.buildDelta sessionNodeId batch sent version) w =
      (.ok (cp.deltaOf w node batch sent version, (cp.peerDeltaOf w node sent version).2), w) := by
  rw [build_delta_run_rescan cp hbatch, hnode]
  rfl

end Reads

theorem eq_of_non_empty {built response : MapResponse}
    (h : nonEmpty built = some response) : response = built := by
  unfold nonEmpty at h
  split at h
  · cases h
  · cases h
    rfl

theorem build_delta_cases {cp : ControlPlane} {batch : ChangeBatch} {sessionNodeId version : Nat}
    {sent sent' : SessionPeers} {w : World} {response : MapResponse}
    (h : (exec (cp.buildDelta sessionNodeId batch sent version) w).1 =
      .ok (some response, sent')) :
    (batch.needsPeerRescan = false ∧ response = cp.namedPartsOf w batch) ∨
      ∃ node, w.db.getNodeById sessionNodeId = some node ∧
        cp.deltaOf w node batch sent version = some response := by
  cases hbatch : batch.needsPeerRescan with
  | false =>
    rw [build_delta_run_other cp hbatch] at h
    exact .inl ⟨rfl, eq_of_non_empty (congrArg Prod.fst (Except.ok.inj h))⟩
  | true =>
    rw [build_delta_run_rescan cp hbatch] at h
    cases hnode : w.db.getNodeById sessionNodeId with
    | none =>
      rw [hnode] at h
      cases h
    | some node =>
      rw [hnode] at h
      exact .inr ⟨node, rfl, congrArg Prod.fst (Except.ok.inj h)⟩

end Crabscale.Control
