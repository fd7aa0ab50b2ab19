import Crabscale.Control.Register

/-!
# Network maps

The complete map sent to a client in its first frame, and the handling of map requests. The parts
that only read the store are programs too, one call for each query of the source.
-/

namespace Crabscale.Control

open Rust Proto Policy Interaction

structure SessionPeers where
  peers : BTreeMap Nat WireNode := ∅
  keyExpiry : BTreeMap Nat (Option String) := ∅
  deriving DecidableEq

def SessionPeers.fromPeers (nodes : List WireNode) : SessionPeers :=
  { peers := nodes.foldl (fun peers node => peers.insert node.id node) ∅ }

/-- An encoded response. -/
structure Frame where
  response : MapResponse
  compress : Bool
  deriving DecidableEq

structure StreamStart where
  firstFrame : Frame
  keepAlive : Bool
  compress : Bool
  sessionId : Nat
  nodeId : Nat
  initialPeers : SessionPeers
  clientVersion : Nat
  deriving DecidableEq

inductive MapOutcome where
  | liteUpdate
  | fullFrame (frame : Frame)
  | stream (start : StreamStart)
  deriving DecidableEq

def nonAddressRoutes (routes addresses : List String) : List String :=
  routes.filter fun route => route ∉ addresses

def allowedIpsFor (version : Nat) (addresses : List String) (allowed : Option (List String)) :
    Option (List String) :=
  let effective := allowed.getD addresses
  if allowedIpsNullMeansAddresses version && effective == addresses then none else some effective

/-- The effect of a map request on the requesting node's row, tags apart. Streaming requests do not
touch the host information and the endpoints. -/
def observeRequest (node : Node) (request : MapRequest) (now : String) : Node :=
  let seen := { node with discoKey := request.discoKey, lastSeen := some now }
  if request.stream && streamingReadOnly request.version then seen
  else
    let hosted :=
      match request.hostinfo with
      | none => seen
      | some hostinfo =>
        { seen with
          hostinfo := some hostinfo
          advertisedRoutes := routeList (some hostinfo)
          homeDerp :=
            match hostinfo.netInfo with
            | some netInfo =>
              if netInfo.preferredDerp ≠ 0 then netInfo.preferredDerp else seen.homeDerp
            | none => seen.homeDerp }
    { hosted with endpoints := request.endpoints, endpointTypes := request.endpointTypes }

namespace ControlPlane

variable (cp : ControlPlane)

/-! ## Nodes for the policy compiler -/

def compileNode (node : Node) : ControlM CompileNode := do
  let userLogin ← nodeOwnerLogin node
  return { id := node.id, stableId := node.stableId, userLogin, addresses := node.addresses,
           tags := node.tags.getD [] }

def compileNodes : ControlM (List CompileNode) := do
  let nodes ← store .listNodes
  nodes.mapM compileNode

def effectiveApprovedRoutes (node : Node) : ControlM (List String) := do
  let compile ← compileNode node
  let approved := sortDedup (node.approvedRoutes.filter fun route => route ∈ node.advertisedRoutes)
  return sortDedup (approved ++ autoApprovedRoutes cp.config.policy compile node.advertisedRoutes)

def peerNode (stored : Node) (clientVersion : Nat) : ControlM WireNode := do
  let online ← memory (.isOnline stored.id)
  let routes ← cp.effectiveApprovedRoutes stored
  let node := { stored.toProto with online := some online }
  let routed :=
    if routes = [] then node
    else
      { node with
        allowedIps := some (sortDedup (stored.addresses ++ routes))
        primaryRoutes := nonAddressRoutes routes stored.addresses }
  return { routed with
    allowedIps := allowedIpsFor clientVersion stored.addresses routed.allowedIps }

/-- Whether a stored node is a peer of `node`: another node, authorized, and visible. -/
def isPeer (node : Node) (visible : BTreeSet Nat) (stored : Node) : Bool :=
  stored.nodeKey != node.nodeKey && stored.machineAuthorized && visible.contains stored.id

/-! ## DNS -/

/-- The current DNS configuration; `none` when nothing is configured. -/
def buildDnsConfig : ControlM (Option DnsConfig) := do
  let dns := cp.config.dns
  let extraRecords ← memory .extraRecords
  if !dns.magicDns && dns.splitDns.isEmpty && dns.searchDomains.isEmpty && extraRecords.isEmpty then
    return none
  let magicDnsIpv4 :=
    dns.magicDnsIpv4.getD (deriveMagicDnsIpv4 cp.config.ipv4Prefix cp.config.ipv4PrefixLen)
  let magicDnsIpv6 :=
    dns.magicDnsIpv6.getD (deriveMagicDnsIpv6 cp.config.ipv6Prefix cp.config.ipv6PrefixLen)
  let nodes ← store .listNodes
  return some (dns.build cp.config.tailnetDomain magicDnsIpv4 magicDnsIpv6
    (nodes.map Node.toProto) extraRecords)

/-! ## The complete map -/

def filtersFor (version : Nat) (base : List FilterRule) :
    Option (List FilterRule) × Option (BTreeMap String (List FilterRule)) :=
  if prefersIncrementalPacketFilters version then (none, some (BTreeMap.from [("base", base)]))
  else (some base, none)

def selfProto (node : Node) (version : Nat) (routes : List String)
    (compileNodes : List CompileNode) : WireNode :=
  let proto := node.toProto
  let gated :=
    { proto with
      primaryRoutes := nonAddressRoutes routes node.addresses
      allowedIps := allowedIpsFor version node.addresses proto.allowedIps }
  match compileNodes.find? fun n => n.id == node.id with
  | none => gated
  | some selfCompile =>
    if cp.config.policy.nodeAttrs = [] then gated
    else { gated with capMap := nodeAttributes cp.config.policy selfCompile }

def sshPolicyOf (node : Node) (compileNodes : List CompileNode) : Option SshPolicy :=
  buildWireSshPolicy (compileSshPolicy cp.config.policy compileNodes) node.id cp.config.serverUrl
    compileNodes

def userProfile (user : User) : UserProfile :=
  { id := user.id, loginName := user.loginName, displayName := user.displayName }

def userProfiles (userIds : List Nat) : ControlM (List UserProfile) := do
  let users ← userIds.mapM fun userId => store (.getUser userId)
  return users.filterMap fun user => user.map userProfile

def mapUserIds (node : Node) (peers : List Node) : BTreeSet Nat :=
  peers.foldl
    (fun userIds stored =>
      match stored.userId with
      | some userId => userIds.insert userId
      | none => userIds)
    ((∅ : BTreeSet Nat).insert (node.userId.getD 0))

def buildInitialMap (node : Node) (request : MapRequest) : ControlM MapResponse := do
  let version := request.version
  let compileNodes ← compileNodes
  let compiled := compilePolicy cp.config.policy compileNodes
  let selfRoutes ← cp.effectiveApprovedRoutes node
  let (packetFilter, packetFilters) :=
    filtersFor version ((compiled.nodeFilters[node.id]?).getD [])
  let visible := (compiled.peerVisibility[node.id]?).getD ∅
  let stored ← store .listNodes
  let peerRows := stored.filter (isPeer node visible)
  let peers ← peerRows.mapM fun stored => cp.peerNode stored version
  let userProfiles ← userProfiles (mapUserIds node peerRows).toList
  let derpMap ← memory .derpMap
  let dns ← cp.buildDnsConfig
  return { node := some (cp.selfProto node version selfRoutes compileNodes)
           derpMap := some derpMap
           domain := cp.config.tailnetDomain
           peers := some (peers.insertionSort fun a b => a.id ≤ b.id)
           packetFilter
           packetFilters
           userProfiles
           sshPolicy := cp.sshPolicyOf node compileNodes
           controlTime
           dns }

def encodeFrame (response : MapResponse) (compress : Bool) : ControlM Frame :=
  match cp.ext.encodeError response compress with
  | some error => throw error
  | none => pure { response, compress }

/-! ## Map requests -/

def applyMapTags (node : Node) (request : MapRequest) : ControlM Node :=
  if !(request.stream && streamingReadOnly request.version) && request.hostinfo.isSome then do
    let owner ← nodeOwnerLogin node
    let (_, node) ← cp.applyRequestTags node owner (requestedTags request.hostinfo)
    return node
  else pure node

def recordMapRequest (machineKey : MachineKey) (request : MapRequest) : ControlM Node := do
  if request.version < minSupportedCapver then throw (.unsupportedVersion request.version)
  if request.endpointTypes.length ≠ request.endpoints.length then throw .invalidEndpointTypes
  match (← store (.getNodeByNodeKey request.nodeKey)).filter (·.machineKey = machineKey) with
  | none => throw .notFound
  | some before =>
    let now ← cp.nowRfc3339
    let observed := observeRequest before request now
    let node ← cp.applyMapTags observed request
    let _ ← store (.upsertNode node)
    if node ≠ before then publishChange (.nodeChanged node.id)
    publishChange (.peerSeen node.id)
    return node

def answerMapRequest (node : Node) (request : MapRequest) : ControlM MapOutcome := do
  if !request.stream && request.omitPeers && !request.readOnly then return .liteUpdate
  let compress : Bool := request.compress = "zstd"
  let response ← cp.buildInitialMap node request
  let frame ← cp.encodeFrame response compress
  if request.stream then
    let sessionId ← openSession node.id node.ephemeral
    return .stream
      { firstFrame := frame
        keepAlive := request.keepAlive
        compress
        sessionId
        nodeId := node.id
        initialPeers := SessionPeers.fromPeers (response.peers.getD [])
        clientVersion := request.version }
  else return .fullFrame frame

def handleMap (machineKey : MachineKey) (request : MapRequest) : ControlM MapOutcome := do
  let node ← cp.recordMapRequest machineKey request
  cp.answerMapRequest node request

end ControlPlane

end Crabscale.Control
