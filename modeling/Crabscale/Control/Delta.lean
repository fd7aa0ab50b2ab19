import Crabscale.Control.Map

/-!
# Incremental updates

The update sent to a streaming session after a change batch: the difference between the peers last
sent and the current ones, and the parts of the map that the batch names. The only error of
`buildDelta` is a missing row of the session's own node, found before the tracking state is touched.
-/

namespace Crabscale.Control

open Rust Proto Policy Interaction

inductive PeerDiff where
  | unchanged
  | patch (change : PeerChange)
  | full
  deriving DecidableEq

/-- `some` of the new value when it differs from the old one. -/
def patched {α : Type} [DecidableEq α] (prev next : α) : Option α :=
  if prev = next then none else some next

/-- The fields that only a full peer object can change agree. -/
def structuralEqual (prev next : WireNode) : Bool :=
  prev.stableId == next.stableId && prev.name == next.name && prev.user == next.user &&
    prev.machine == next.machine && prev.addresses == next.addresses &&
    prev.allowedIps == next.allowedIps && prev.hostinfo == next.hostinfo &&
    prev.created == next.created && prev.tags == next.tags && prev.capMap == next.capMap &&
    prev.primaryRoutes == next.primaryRoutes &&
    prev.machineAuthorized == next.machineAuthorized && prev.capabilities == next.capabilities

def diffPeers (prev next : WireNode) (prevExpiry nextExpiry : Option String) : PeerDiff :=
  if !structuralEqual prev next then .full
  else
    let change : PeerChange :=
      { nodeId := next.id
        endpoints := patched prev.endpoints next.endpoints
        derpRegion := patched prev.homeDerp next.homeDerp
        key := patched prev.key next.key
        discoKey := patched prev.discoKey next.discoKey
        -- An optional field that became absent leaves the patch's field empty.
        online := if prev.online = next.online then none else next.online
        lastSeen := if prev.lastSeen = next.lastSeen then none else next.lastSeen
        cap := patched prev.cap next.cap
        keyExpiry := if prevExpiry = nextExpiry then none else nextExpiry }
    let hasPatch : Bool :=
      prev.endpoints ≠ next.endpoints || prev.homeDerp ≠ next.homeDerp || prev.key ≠ next.key ||
        prev.discoKey ≠ next.discoKey || prev.online ≠ next.online ||
        prev.lastSeen ≠ next.lastSeen || prev.cap ≠ next.cap || prevExpiry ≠ nextExpiry
    if hasPatch then .patch change else .unchanged

/-- The difference between the current peers and those last sent. -/
structure PeerDeltas where
  removed : List Nat := []
  changed : List WireNode := []
  patches : List PeerChange := []
  current : List WireNode := []
  visible : BTreeSet Nat := ∅

def SessionPeers.forget (sent : SessionPeers) (id : Nat) : SessionPeers :=
  { peers := sent.peers.erase id, keyExpiry := sent.keyExpiry.erase id }

def SessionPeers.record (sent : SessionPeers) (id : Nat) (peer : WireNode)
    (expiry : Option String) : SessionPeers :=
  { peers := sent.peers.insert id peer, keyExpiry := sent.keyExpiry.insert id expiry }

def diffPeer (acc : PeerDeltas × SessionPeers) (entry : Nat × WireNode × Option String) :
    PeerDeltas × SessionPeers :=
  let (deltas, sent) := acc
  let (id, next, nextExpiry) := entry
  let deltas' :=
    match sent.peers[id]? with
    | none => { deltas with changed := deltas.changed ++ [next] }
    | some prev =>
      match diffPeers prev next ((sent.keyExpiry[id]?).join) nextExpiry with
      | .unchanged => deltas
      | .patch change => { deltas with patches := deltas.patches ++ [change] }
      | .full => { deltas with changed := deltas.changed ++ [next] }
  (deltas', sent.record id next nextExpiry)

def diffSession (visible : BTreeSet Nat) (next : BTreeMap Nat (WireNode × Option String))
    (sent : SessionPeers) : PeerDeltas × SessionPeers :=
  let removed := sent.peers.keys.filter fun id => !next.contains id
  let kept := removed.foldl SessionPeers.forget sent
  let (deltas, sent) := next.toList.foldl diffPeer ({ removed, visible }, kept)
  ({ deltas with current := next.toList.map fun entry => entry.2.1 }, sent)

namespace ControlPlane

variable (cp : ControlPlane)

def visibleTo (policy : Policy) (node : Node) (compileNodes : List CompileNode) : BTreeSet Nat :=
  ((compilePolicy policy compileNodes).peerVisibility[node.id]?).getD ∅

def computePeerDelta (selfNode : Node) (sent : SessionPeers) (clientVersion : Nat) :
    ControlM (PeerDeltas × SessionPeers) := do
  let compileNodes ← compileNodes
  let visible := visibleTo cp.config.policy selfNode compileNodes
  let stored ← store .listNodes
  let next ← (stored.filter (isPeer selfNode visible)).mapM fun stored => do
    let peer ← cp.peerNode stored clientVersion
    return (stored.id, peer, stored.keyExpiry)
  return diffSession visible (BTreeMap.from next) sent

def basePacketFilters (selfNode : Node) : ControlM (BTreeMap String (List FilterRule)) := do
  let compileNodes ← compileNodes
  let compiled := compilePolicy cp.config.policy compileNodes
  return BTreeMap.from [("base", (compiled.nodeFilters[selfNode.id]?).getD [])]

def sshPolicyFor (selfNode : Node) : ControlM (Option SshPolicy) := do
  let compileNodes ← compileNodes
  return cp.sshPolicyOf selfNode compileNodes

def selfNodeProto (selfNode : Node) (clientVersion : Nat) : ControlM WireNode := do
  let routes ← cp.effectiveApprovedRoutes selfNode
  if cp.config.policy.nodeAttrs = [] then return cp.selfProto selfNode clientVersion routes []
  let compileNodes ← compileNodes
  return cp.selfProto selfNode clientVersion routes compileNodes

/-- `none` for a response with nothing in it. -/
def nonEmpty (response : MapResponse) : Option MapResponse :=
  if response = {} then none else some response

def visibleSignals (visible : BTreeSet Nat) (signals : List (Nat × Bool)) :
    Option (BTreeMap Nat Bool) :=
  let seen := signals.filter fun signal => visible.contains signal.1
  if seen = [] then none else some (BTreeMap.from seen)

def dnsPart (batch : ChangeBatch) : ControlM (Option DnsConfig) :=
  if batch.hasDns then cp.buildDnsConfig else pure none

def derpPart (batch : ChangeBatch) : ControlM (Option DerpMap) :=
  if batch.hasDerp then do return some (← memory .derpMap) else pure none

def namedParts (batch : ChangeBatch) : ControlM MapResponse := do
  let dns ← cp.dnsPart batch
  let derpMap ← derpPart batch
  return { dns, derpMap }

def policyDelta (selfNode : Node) (clientVersion : Nat) (deltas : PeerDeltas)
    (response : MapResponse) : ControlM MapResponse := do
  let packetFilters ← cp.basePacketFilters selfNode
  let sshPolicy ← cp.sshPolicyFor selfNode
  let node ← cp.selfNodeProto selfNode clientVersion
  return { response with
    peers := some deltas.current
    packetFilters := some packetFilters
    sshPolicy
    node := some node }

/-- `none` for an empty list. -/
def nonEmptyList {α : Type} : List α → Option (List α)
  | [] => none
  | items => some items

def peerDelta (batch : ChangeBatch) (deltas : PeerDeltas) (response : MapResponse) : MapResponse :=
  { response with
    peersRemoved := nonEmptyList deltas.removed
    peersChanged := nonEmptyList deltas.changed
    peersChangedPatch := nonEmptyList deltas.patches
    onlineChange := visibleSignals deltas.visible batch.onlineChanges
    peerSeenChange := visibleSignals deltas.visible (batch.seenNodes.map fun id => (id, true)) }

/-- Build the update of a session after a batch; `none` when there is nothing to send. -/
def buildDelta (sessionNodeId : Nat) (batch : ChangeBatch) (sent : SessionPeers)
    (clientVersion : Nat) : ControlM (Option MapResponse × SessionPeers) := do
  let response ← cp.namedParts batch
  if !batch.needsPeerRescan then return (nonEmpty response, sent)
  match ← store (.getNodeById sessionNodeId) with
  | none => throw .notFound
  | some selfNode =>
    let (deltas, sent) ← cp.computePeerDelta selfNode sent clientVersion
    if batch.hasPolicy then
      let response ← cp.policyDelta selfNode clientVersion deltas response
      return (some response, sent)
    else return (nonEmpty (peerDelta batch deltas response), sent)

end ControlPlane

end Crabscale.Control
