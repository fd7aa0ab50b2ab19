import Crabscale.Control.Model
import Mathlib.Algebra.GroupWithZero.Nat

/-!
# In-memory components

The cache of pending registrations, the OpenID Connect flows, the registry of live map sessions and
the change bus. Each operation runs under one lock in the source, so it is one function on the
component's state.
-/

namespace Crabscale.Control

open Rust Proto

/-! ## Pending cache -/

/-- A bounded cache of pending registrations; `order` runs from the least recently used. -/
structure PendingCache where
  entries : BTreeMap String PendingRegistration := ∅
  order : List String := []
  limit : Nat

namespace PendingCache

def touch (cache : PendingCache) (authId : String) : PendingCache :=
  if authId ∈ cache.order then { cache with order := cache.order.erase authId ++ [authId] }
  else cache

def insert (cache : PendingCache) (entry : PendingRegistration) : PendingCache :=
  let authId := entry.authId
  if cache.entries.contains authId then
    { cache with entries := cache.entries.insert authId entry }.touch authId
  else
    let evicted : PendingCache :=
      if cache.entries.size ≥ cache.limit then
        match cache.order with
        | [] => cache
        | oldest :: rest => { cache with entries := cache.entries.erase oldest, order := rest }
      else cache
    { evicted with
      order := evicted.order ++ [authId]
      entries := evicted.entries.insert authId entry }

/-- Look up an entry, which makes it the most recently used one. -/
def get (cache : PendingCache) (authId : String) : Option PendingRegistration × PendingCache :=
  (cache.entries[authId]?, if cache.entries.contains authId then cache.touch authId else cache)

/-- Look up an entry and change it in place. -/
def getMut (cache : PendingCache) (authId : String)
    (change : PendingRegistration → PendingRegistration) : PendingCache :=
  let touched := if cache.entries.contains authId then cache.touch authId else cache
  { touched with entries := touched.entries.modify authId change }

/-- Drop an entry. -/
def remove (cache : PendingCache) (authId : String) : PendingCache :=
  if cache.entries.contains authId then
    { cache with
      entries := cache.entries.erase authId
      order := cache.order.filter (· ≠ authId) }
  else cache

end PendingCache

/-! ## OpenID Connect flows -/

structure OidcFlow where
  authId : String
  nonce : String
  expiresAt : Int
  deriving DecidableEq

/-- A bounded store of flows by their state; `order` runs from the least recently used. -/
structure OidcFlowStore where
  entries : BTreeMap String OidcFlow := ∅
  order : List String := []
  limit : Nat := 512
  ttlSeconds : Int := 10 * 60

namespace OidcFlowStore

def touch (flows : OidcFlowStore) (state : String) : OidcFlowStore :=
  if state ∈ flows.order then { flows with order := flows.order.erase state ++ [state] } else flows

def insert (flows : OidcFlowStore) (state : String) (flow : OidcFlow) : OidcFlowStore :=
  if flows.entries.contains state then
    { flows with entries := flows.entries.insert state flow }.touch state
  else
    let evicted : OidcFlowStore :=
      if flows.entries.size ≥ flows.limit then
        match flows.order with
        | [] => flows
        | oldest :: rest => { flows with entries := flows.entries.erase oldest, order := rest }
      else flows
    { evicted with
      order := evicted.order ++ [state]
      entries := evicted.entries.insert state flow }

def begin (flows : OidcFlowStore) (authId state nonce : String) (now : Int) : OidcFlowStore :=
  flows.insert state { authId, nonce, expiresAt := now + flows.ttlSeconds }

def take (flows : OidcFlowStore) (state : String) (now : Int) : Option OidcFlow × OidcFlowStore :=
  match flows.entries[state]? with
  | none => (none, flows)
  | some flow =>
    (if flow.expiresAt ≤ now then none else some flow,
      { flows with
        entries := flows.entries.erase state
        order := flows.order.filter (· ≠ state) })

end OidcFlowStore

/-! ## Session registry -/

/-- A change of a node's presence. -/
inductive SessionEvent where
  | online (nodeId : Nat)
  | offline (nodeId : Nat)
  | ephemeralExpired (nodeId : Nat)
  deriving DecidableEq

structure NodeSessions where
  live : Nat := 0
  online : Bool := false
  offlineAt : Option Int := none
  ephemeral : Bool
  deriving DecidableEq

/-- All live sessions. -/
structure SessionRegistry where
  graceSeconds : Int
  nextSessionId : Nat := 1
  nodes : BTreeMap Nat NodeSessions := ∅
  sessionToNode : BTreeMap Nat Nat := ∅

namespace SessionRegistry

def openNode (nodeId : Nat) (entry : NodeSessions) (now : Int) :
    NodeSessions × List SessionEvent :=
  if entry.live = 0 then
    -- An elapsed grace period makes the node offline first; otherwise the deadline is cancelled.
    let elapsed : Bool := entry.offlineAt.any fun at_ => at_ ≤ now
    let offline : Bool := elapsed && entry.online
    let online : Bool := entry.online && !offline
    ({ entry with live := 1, online := true, offlineAt := none },
      (if offline then [.offline nodeId] else []) ++ if online then [] else [.online nodeId])
  else ({ entry with live := entry.live + 1 }, [])

def openSession (registry : SessionRegistry) (nodeId : Nat) (ephemeral : Bool) (now : Int) :
    (Nat × List SessionEvent) × SessionRegistry :=
  let sessionId := registry.nextSessionId
  let entry := { (registry.nodes[nodeId]?).getD { ephemeral } with ephemeral }
  let (entry, events) := openNode nodeId entry now
  ((sessionId, events),
    { registry with
      nextSessionId := sessionId + 1
      nodes := registry.nodes.insert nodeId entry
      sessionToNode := registry.sessionToNode.insert sessionId nodeId })

def closeSession (registry : SessionRegistry) (sessionId : Nat) (now : Int) :
    Bool × SessionRegistry :=
  match registry.sessionToNode[sessionId]? with
  | none => (false, registry)
  | some nodeId =>
    (true,
      { registry with
        sessionToNode := registry.sessionToNode.erase sessionId
        nodes :=
          match registry.nodes[nodeId]? with
          | none => registry.nodes
          | some entry =>
            let live := entry.live - 1
            registry.nodes.insert nodeId
              { entry with
                live
                offlineAt :=
                  if live = 0 then some (now + registry.graceSeconds) else entry.offlineAt } })

/-- One node's part of a tick: its state, `none` when it is dropped, and the events. -/
def tickNode (nodeId : Nat) (entry : NodeSessions) (now : Int) :
    Option NodeSessions × List SessionEvent :=
  if entry.live ≠ 0 then (some entry, [])
  else
    match entry.offlineAt with
    | none => (some entry, [])
    | some at_ =>
      if now < at_ then (some entry, [])
      else
        let offline := if entry.online then [.offline nodeId] else []
        if entry.ephemeral then (none, offline ++ [.ephemeralExpired nodeId])
        else (some { entry with online := false, offlineAt := none }, offline)

/-- Take every transition that is due. The source visits the nodes in the arbitrary order of a hash
map, the model in the order of their ids. -/
def tick (registry : SessionRegistry) (now : Int) : List SessionEvent × SessionRegistry :=
  registry.nodes.toList.foldl
    (fun acc node =>
      let (entry, events) := tickNode node.1 node.2 now
      (acc.1 ++ events,
        { acc.2 with
          nodes :=
            match entry with
            | none => acc.2.nodes.erase node.1
            | some entry => acc.2.nodes.insert node.1 entry }))
    ([], registry)

def isOnline (registry : SessionRegistry) (nodeId : Nat) : Bool :=
  ((registry.nodes[nodeId]?).map NodeSessions.online).getD false

def liveSessions (registry : SessionRegistry) (nodeId : Nat) : Nat :=
  ((registry.nodes[nodeId]?).map NodeSessions.live).getD 0

end SessionRegistry

/-! ## Change bus -/

inductive ChangeEvent where
  | nodeChanged (nodeId : Nat)
  | nodeRemoved (nodeId : Nat)
  | policyChanged
  | dnsChanged
  | derpMapChanged
  | onlineChanged (nodeId : Nat) (online : Bool)
  | peerSeen (nodeId : Nat)
  deriving DecidableEq

structure ChangeBatch where
  events : List ChangeEvent := []
  deriving DecidableEq

namespace ChangeBatch

def hasDns (batch : ChangeBatch) : Bool := batch.events.any (· == .dnsChanged)

def hasDerp (batch : ChangeBatch) : Bool := batch.events.any (· == .derpMapChanged)

def hasPolicy (batch : ChangeBatch) : Bool := batch.events.any (· == .policyChanged)

def peerEvent : ChangeEvent → Bool
  | .nodeChanged _ | .nodeRemoved _ | .policyChanged | .onlineChanged _ _ | .peerSeen _ => true
  | .dnsChanged | .derpMapChanged => false

def needsPeerRescan (batch : ChangeBatch) : Bool := batch.events.any peerEvent

def onlineChanges (batch : ChangeBatch) : List (Nat × Bool) :=
  batch.events.filterMap fun
    | .onlineChanged nodeId online => some (nodeId, online)
    | _ => none

def seenNodes (batch : ChangeBatch) : List Nat :=
  batch.events.filterMap fun
    | .peerSeen nodeId => some nodeId
    | _ => none

end ChangeBatch

structure NodeAccumulator where
  changed : Bool := false
  removed : Bool := false
  seen : Bool := false
  online : Option Bool := none
  deriving DecidableEq

/-- The changes of the current window. -/
structure Accumulator where
  nodes : BTreeMap Nat NodeAccumulator := ∅
  policy : Bool := false
  dns : Bool := false
  derp : Bool := false

namespace Accumulator

def onNode (acc : Accumulator) (nodeId : Nat) (f : NodeAccumulator → NodeAccumulator) :
    Accumulator :=
  { acc with nodes := acc.nodes.alter nodeId fun node => some (f (node.getD {})) }

def apply (acc : Accumulator) : ChangeEvent → Accumulator
  | .nodeChanged nodeId =>
    acc.onNode nodeId fun node => if node.removed then node else { node with changed := true }
  | .nodeRemoved nodeId =>
    acc.onNode nodeId fun _ =>
      { removed := true, changed := false, seen := false, online := none }
  | .policyChanged => { acc with policy := true }
  | .dnsChanged => { acc with dns := true }
  | .derpMapChanged => { acc with derp := true }
  | .onlineChanged nodeId online =>
    acc.onNode nodeId fun node =>
      if node.removed then node else { node with online := some online }
  | .peerSeen nodeId =>
    acc.onNode nodeId fun node => if node.removed then node else { node with seen := true }

def nodeCount (node : NodeAccumulator) : Nat :=
  (node.removed || node.changed).toNat + node.online.isSome.toNat + node.seen.toNat

/-- The number of events the batch would have. -/
def count (acc : Accumulator) : Nat :=
  (acc.nodes.toList.map fun node => nodeCount node.2).sum + acc.policy.toNat + acc.dns.toNat +
    acc.derp.toNat

def nodeEvents (nodeId : Nat) (node : NodeAccumulator) : List ChangeEvent :=
  if node.removed then [.nodeRemoved nodeId]
  else
    (if node.changed then [.nodeChanged nodeId] else []) ++
      (match node.online with
        | some online => [.onlineChanged nodeId online]
        | none => []) ++
      if node.seen then [.peerSeen nodeId] else []

def drainBatch (acc : Accumulator) : ChangeBatch :=
  { events :=
      (if acc.policy then [.policyChanged] else []) ++ (if acc.dns then [.dnsChanged] else []) ++
        (if acc.derp then [.derpMapChanged] else []) ++
        acc.nodes.toList.flatMap fun node => nodeEvents node.1 node.2 }

end Accumulator

structure ChangeBus where
  accumulator : Accumulator := {}
  maxEvents : Nat
  sent : List ChangeBatch := []

namespace ChangeBus

def broadcast (bus : ChangeBus) (batch : ChangeBatch) : ChangeBus :=
  if batch.events = [] then bus else { bus with sent := bus.sent ++ [batch] }

/-- Broadcast the current window now. -/
def flush (bus : ChangeBus) : ChangeBus :=
  { bus with accumulator := {} }.broadcast bus.accumulator.drainBatch

def publish (bus : ChangeBus) (event : ChangeEvent) : ChangeBus :=
  let bus := { bus with accumulator := bus.accumulator.apply event }
  if bus.accumulator.count ≥ bus.maxEvents then bus.flush else bus

end ChangeBus

end Crabscale.Control
