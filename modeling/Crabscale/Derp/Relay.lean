import Crabscale.Derp.Frame
import Crabscale.Interaction.Channel
import Crabscale.Rust.Collections

/-!
# The relay

Each connection is a task that logs its client in, registers it and then routes the packets that it
reads, with a writer that takes frames from the connection's outbound channel. The tasks share the
registry, under a lock, and the channels that it points to; an event is one operation on the
registry, or a step of one task between two of them.
-/

namespace Crabscale.Derp

open Rust Interaction

def outboundCapacity : Nat := 256

/-! ## The login handshake -/

/-- Why a login fails. -/
inductive HandshakeError where
  | decryptionFailed
  | invalidPayload (message : String)
  deriving DecidableEq

structure ClientInfoPayload where
  canAckPings : Bool := false
  isProber : Bool := false
  meshKey : String := ""
  version : Nat := protocolVersion

/-- What the relay seals in its answer. -/
structure ServerInfoPayload where
  version : Nat := protocolVersion
  tokenBucketBytesPerSecond : Option Nat := none
  tokenBucketBytesBurst : Option Nat := none

/-- The libraries that the handshake rests on: the sealed boxes of a public and a secret key, and
the JSON form of the payloads. -/
structure Libraries where
  publicKey : SecretKey → NodeKey
  encrypt : NodeKey → SecretKey → Bytes nonceLen → List UInt8 → Option (List UInt8)
  decrypt : NodeKey → SecretKey → Bytes nonceLen → List UInt8 → Option (List UInt8)
  toVec : ServerInfoPayload → Except String (List UInt8)
  fromSlice : List UInt8 → Except String ClientInfoPayload

namespace Libraries

variable (ext : Libraries)

def sealTo (recipientPublic : NodeKey) (senderSecret : SecretKey) (nonce : Bytes nonceLen)
    (plaintext : List UInt8) : Except FrameError (List UInt8) :=
  (ext.encrypt recipientPublic senderSecret nonce plaintext).elim (.error .cryptoFailed) .ok

def openFrom (senderPublic : NodeKey) (recipientSecret : SecretKey) (nonce : Bytes nonceLen)
    (ciphertext : List UInt8) : Except FrameError (List UInt8) :=
  (ext.decrypt senderPublic recipientSecret nonce ciphertext).elim (.error .cryptoFailed) .ok

def openClientInfo (clientPublic : NodeKey) (serverSecret : SecretKey) (nonce : Bytes nonceLen)
    (ciphertext : List UInt8) : Except HandshakeError ClientInfoPayload := do
  let plaintext ← (ext.openFrom clientPublic serverSecret nonce ciphertext).mapError
    fun _ => .decryptionFailed
  (ext.fromSlice plaintext).mapError .invalidPayload

def makeServerInfo (serverSecret : SecretKey) (clientPublic : NodeKey) (payload : ServerInfoPayload)
    (nonce : Bytes nonceLen) : Except HandshakeError (List UInt8) := do
  let json ← (ext.toVec payload).mapError .invalidPayload
  (ext.sealTo clientPublic serverSecret nonce json).mapError fun _ => .decryptionFailed

end Libraries

/-- The configuration of a relay. The admission callback asks the control plane, so that its answer
may change with time. -/
structure Relay where
  ext : Libraries
  serverSecret : SecretKey
  verify : Option (Nat → NodeKey → Bool) := none

def Relay.serverPublic (relay : Relay) : NodeKey := relay.ext.publicKey relay.serverSecret

def Relay.acceptClientInfo (relay : Relay) (now : Nat) (body : List UInt8) : Option NodeKey :=
  match ClientInfoBody.decodePrefix body with
  | .error _ => none
  | .ok { key, nonce } =>
    let encrypted := body.drop ClientInfoBody.prefixLen
    match relay.ext.openClientInfo key relay.serverSecret nonce encrypted with
    | .error _ => none
    | .ok _ =>
      match relay.verify with
      | some verify => if !verify now key then none else some key
      | none => some key

/-! ## The registry -/

/-- One accepted connection. -/
abbrev TaskId : Type := Nat

abbrev ClientId : Type := Nat

/-- A registered connection: its key, and the connection whose channel leads to the client. -/
structure ConnEntry where
  node : NodeKey
  out : TaskId
  deriving DecidableEq

structure Registry where
  byKey : HashMap NodeKey (HashSet ClientId) := ∅
  conns : HashMap ClientId ConnEntry := ∅

namespace Registry

def add (reg : Registry) (id : ClientId) (entry : ConnEntry) : Registry where
  byKey := reg.byKey.insert entry.node (((reg.byKey.lookup entry.node).getD .empty).insert id)
  conns := reg.conns.insert id entry

/-- Take a connection out, and say whether it was the last one of its key. -/
def remove (reg : Registry) (id : ClientId) (entry : ConnEntry) : Registry × Bool :=
  let conns := reg.conns.erase id
  match reg.byKey.lookup entry.node with
  | some set =>
    if (set.remove id).isEmpty then ({ byKey := reg.byKey.erase entry.node, conns }, true)
    else ({ byKey := reg.byKey.insert entry.node (set.remove id), conns }, false)
  | none => ({ reg with conns }, false)

def outs (reg : Registry) : List TaskId := (HashMap.values reg.conns).map ConnEntry.out

def outsOf (reg : Registry) (ids : List ClientId) : List TaskId :=
  ids.filterMap fun id => (reg.conns.lookup id).map ConnEntry.out

end Registry

/-! ## The state -/

/-- A login that was accepted: the body that the client sent, when it was accepted, and the key. -/
structure Login where
  client : List UInt8
  now : Nat
  nodeKey : NodeKey

inductive Task where
  | absent
  | awaitingInfo
  | accepted (login : Login)
  | admitted (login : Login)
  | running (login : Login) (id : ClientId)
  | leaving (login : Login) (id : ClientId)
  | closed

/-- The state of a relay: the registry, the tasks, the outbound channels, what was written to each
stream, and the counters of relayed and of dropped packets. -/
structure World where
  registry : Registry := {}
  nextId : ClientId := 1
  tasks : TaskId → Task := fun _ => .absent
  channels : TaskId → Channel Frame := fun _ => {}
  written : TaskId → List Frame := fun _ => []
  derpPacketsTotal : Nat := 0
  derpPacketsDroppedTotal : Nat := 0

namespace World

/-! ## Operations on the registry -/

def announceTo (node : NodeKey) : List NodeKey → HashSet NodeKey → Channel Frame → Channel Frame
  | [], _, out => out
  | peer :: peers, announced, out =>
    if peer ≠ node ∧ peer ∉ announced then
      announceTo node peers (announced.insert peer)
        (out.trySend outboundCapacity (.peerPresent peer)).1
    else announceTo node peers announced out

/-- Register a connection: announce it to all others, tell it about them in the order in which the
map yields their keys, and enter it. -/
def register (w : World) (node : NodeKey) (out : TaskId) (order : List NodeKey) :
    World × ClientId :=
  let id := w.nextId
  let channels := (sendAll outboundCapacity (.peerPresent node) w.registry.outs w.channels).1
  ({ w with
      nextId := id + 1
      registry := w.registry.add id { node, out }
      channels := Function.update channels out (announceTo node order .empty (channels out)) }, id)

/-- Take a connection out of the registry, and tell all others when its key is gone. -/
def deregister (w : World) (id : ClientId) : World :=
  match w.registry.conns.lookup id with
  | none => w
  | some entry =>
    let (registry, wasLast) := w.registry.remove id entry
    let channels :=
      if wasLast then
        (sendAll outboundCapacity (.peerGone entry.node .disconnected) registry.outs w.channels).1
      else w.channels
    { w with registry, channels }

def sendTo (w : World) (out : TaskId) (frame : Frame) : World :=
  { w with
    channels := Function.update w.channels out
      ((w.channels out).trySend outboundCapacity frame).1 }

def routeSendPacket (w : World) (source : ClientId) (dest : NodeKey) (packet : List UInt8) :
    World :=
  if packet.length > maxPacketPayloadLen then
    { w with derpPacketsDroppedTotal := w.derpPacketsDroppedTotal + 1 }
  else
    match w.registry.conns.lookup source with
    | none => w
    | some sender =>
      match (w.registry.byKey.lookup dest).filter (!·.isEmpty) with
      | none =>
        { w.sendTo sender.out (.peerGone dest .notHere) with
          derpPacketsDroppedTotal := w.derpPacketsDroppedTotal + 1 }
      | some targets =>
        let (channels, delivered) := sendAll outboundCapacity (.recvPacket sender.node packet)
          (w.registry.outsOf targets.items) w.channels
        if delivered then { w with channels, derpPacketsTotal := w.derpPacketsTotal + 1 }
        else { w with channels, derpPacketsDroppedTotal := w.derpPacketsDroppedTotal + 1 }

def sendKeepalive (w : World) (id : ClientId) : World :=
  match w.registry.conns.lookup id with
  | none => w
  | some entry => w.sendTo entry.out ⟨.keepAlive, []⟩

def handleDataFrame (w : World) (id : ClientId) (frame : Frame) : World × Bool :=
  match frame.ty with
  | .sendPacket =>
    match SendPacketBody.decodePrefix frame.payload with
    | .error _ => (w, true)
    | .ok body =>
      (w.routeSendPacket id body.dest (frame.payload.drop SendPacketBody.prefixLen), true)
  | .pong => (w, true)
  | .forwardPacket | .watchConns | .peerPresent | .peerGone => (w, true)
  | .ping => (w, false)
  | _ => (w, false)

def setTask (w : World) (t : TaskId) (task : Task) : World :=
  { w with tasks := Function.update w.tasks t task }

def wrote (w : World) (t : TaskId) (frame : Frame) : World :=
  { w with written := Function.update w.written t (w.written t ++ [frame]) }

end World

/-! ## Events -/

/-- What happens next. An event says what the environment decides: whether a write succeeds, which
frame is read and when, which nonce is drawn, and in which order the keys of the registry come. -/
inductive Event where
  | connect (t : TaskId) (written : Bool)
  | frame (t : TaskId) (frame : Frame) (now : Nat)
  | readEnd (t : TaskId)
  | serverInfo (t : TaskId) (nonce : Bytes nonceLen) (written : Bool)
  | register (t : TaskId) (order : List NodeKey)
  | deregister (t : TaskId)
  | keepalive (t : TaskId)
  | write (t : TaskId) (written : Bool)

namespace Relay

variable (relay : Relay)

/-- A connection is accepted, and the relay's key is the first frame. -/
def connect (t : TaskId) (written : Bool) (w : World) : World :=
  match w.tasks t with
  | .absent =>
    if written then
      (w.wrote t ⟨.serverKey, ServerKeyBody.encode { key := relay.serverPublic }⟩).setTask t
        .awaitingInfo
    else w.setTask t .closed
  | _ => w

def readFrame (t : TaskId) (frame : Frame) (now : Nat) (w : World) : World :=
  match w.tasks t with
  | .awaitingInfo =>
    if frame.ty = .clientInfo then
      match relay.acceptClientInfo now frame.payload with
      | some nodeKey => w.setTask t (.accepted { client := frame.payload, now, nodeKey })
      | none => w.setTask t .closed
    else w
  | .running login id =>
    let (w, goesOn) := w.handleDataFrame id frame
    if goesOn then w else w.setTask t (.leaving login id)
  | _ => w

def readEnd (t : TaskId) (w : World) : World :=
  match w.tasks t with
  | .awaitingInfo => w.setTask t .closed
  | .running login id => w.setTask t (.leaving login id)
  | _ => w

def writeServerInfo (t : TaskId) (nonce : Bytes nonceLen) (written : Bool) (w : World) : World :=
  match w.tasks t with
  | .accepted login =>
    match relay.ext.makeServerInfo relay.serverSecret login.nodeKey {} nonce with
    | .error _ => w.setTask t .closed
    | .ok ciphertext =>
      if written then
        (w.wrote t ⟨.serverInfo, ServerInfoBody.encodePrefix { nonce } ++ ciphertext⟩).setTask t
          (.admitted login)
      else w.setTask t .closed
  | _ => w

def registerTask (t : TaskId) (order : List NodeKey) (w : World) : World :=
  match w.tasks t with
  | .admitted login =>
    let (w, id) := { w with channels := Function.update w.channels t {} }.register
      login.nodeKey t order
    w.setTask t (.running login id)
  | _ => w

def deregisterTask (t : TaskId) (w : World) : World :=
  match w.tasks t with
  | .leaving _ id => (w.deregister id).setTask t .closed
  | _ => w

def keepaliveTask (t : TaskId) (w : World) : World :=
  match w.tasks t with
  | .running _ id | .leaving _ id => w.sendKeepalive id
  | _ => w

/-- The writer of a connection takes the next frame to the stream. When that fails, the writer ends
and its half of the channel is dropped. -/
def writeNext (t : TaskId) (written : Bool) (w : World) : World :=
  match (w.channels t).queue with
  | [] => w
  | frame :: queue =>
    if written then
      { w with
        channels := Function.update w.channels t { w.channels t with queue } }.wrote t frame
    else { w with channels := Function.update w.channels t { queue := [], closed := true } }

def step : Event → World → World
  | .connect t written => relay.connect t written
  | .frame t frame now => relay.readFrame t frame now
  | .readEnd t => readEnd t
  | .serverInfo t nonce written => relay.writeServerInfo t nonce written
  | .register t order => registerTask t order
  | .deregister t => deregisterTask t
  | .keepalive t => keepaliveTask t
  | .write t written => writeNext t written

end Relay

def Allowed (w : World) : Event → Prop
  | .register _ order => order.Perm w.registry.byKey.keys
  | _ => True

instance (w : World) : DecidablePred (Allowed w)
  | .register _ _ => inferInstanceAs (Decidable (List.Perm _ _))
  | .connect .. | .frame .. | .readEnd _ | .serverInfo .. | .deregister _ | .keepalive _
  | .write .. => isTrue trivial

/-- The runs of a relay whose events meet a condition, by the events so far and the state after
them. -/
inductive Runs (relay : Relay) (C : World → Event → Prop) : List Event → World → Prop where
  | start : Runs relay C [] {}
  | step {es : List Event} {w : World} {e : Event} : Runs relay C es w → Allowed w e → C w e →
      Runs relay C (es ++ [e]) (relay.step e w)

def Relay.runEvents (relay : Relay) (es : List Event) (w : World) : World :=
  es.foldl (fun w e => relay.step e w) w

def Permitted (relay : Relay) (C : World → Event → Prop) : List Event → World → Prop
  | [], _ => True
  | e :: es, w => Allowed w e ∧ C w e ∧ Permitted relay C es (relay.step e w)

instance (relay : Relay) (C : World → Event → Prop) [∀ w e, Decidable (C w e)] :
    ∀ es w, Decidable (Permitted relay C es w)
  | [], _ => isTrue trivial
  | e :: es, w =>
    have : Decidable (Permitted relay C es (relay.step e w)) :=
      instDecidablePermitted relay C es _
    inferInstanceAs (Decidable (_ ∧ _ ∧ _))

theorem Runs.events {relay : Relay} {C : World → Event → Prop} {es : List Event} {w : World}
    (h : Runs relay C es w) (more : List Event) (hmore : Permitted relay C more w) :
    Runs relay C (es ++ more) (relay.runEvents more w) := by
  induction more generalizing es w with
  | nil =>
    rw [List.append_nil]
    exact h
  | cons e more ih =>
    obtain ⟨hallowed, hmeets, hmore⟩ := hmore
    rw [List.append_cons]
    exact ih (h.step hallowed hmeets) hmore

end Crabscale.Derp
