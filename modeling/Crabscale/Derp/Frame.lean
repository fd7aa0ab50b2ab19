import Crabscale.Rust.Bytes

/-!
# DERP frames

A relay and its clients exchange frames of a type and a body. A body that the relay reads or writes
starts with a key: the destination or the source of a packet, or the peer of a notice.
-/

namespace Crabscale.Derp

open Rust

/-! ## Keys and frames -/

def keyLen : Nat := 32

def nonceLen : Nat := 24

def maxPacketPayloadLen : Nat := 64 * 1024

def magic : Bytes 8 := ⟨[0x44, 0x45, 0x52, 0x50, 0xF0, 0x9F, 0x94, 0x91], rfl⟩

def protocolVersion : Nat := 2

structure NodeKey where
  toBytes : Bytes keyLen
  deriving DecidableEq

structure SecretKey where
  toBytes : Bytes keyLen
  deriving DecidableEq

/-- What is wrong with a body. -/
inductive FrameError where
  | truncated
  | invalidBodyLength (expected actual : Nat)
  | invalidPeerGoneReason (reason : UInt8)
  | cryptoFailed
  deriving DecidableEq

inductive FrameType where
  | serverKey
  | clientInfo
  | serverInfo
  | sendPacket
  | recvPacket
  | keepAlive
  | notePreferred
  | peerGone
  | peerPresent
  | forwardPacket
  | watchConns
  | ping
  | pong
  | health
  | restarting
  deriving DecidableEq

structure Frame where
  ty : FrameType
  payload : List UInt8
  deriving DecidableEq

/-! ## The login -/

structure ServerKeyBody where
  key : NodeKey

def ServerKeyBody.encode (body : ServerKeyBody) : List UInt8 := magic.val ++ body.key.toBytes.val

structure ClientInfoBody where
  key : NodeKey
  nonce : Bytes nonceLen

def ClientInfoBody.prefixLen : Nat := keyLen + nonceLen

def ClientInfoBody.encodePrefix (body : ClientInfoBody) : List UInt8 :=
  body.key.toBytes.val ++ body.nonce.val

def ClientInfoBody.decodePrefix (body : List UInt8) : Except FrameError ClientInfoBody :=
  if h : body.length < prefixLen then .error .truncated
  else
    have hlen : keyLen + nonceLen ≤ body.length := Nat.le_of_not_lt h
    .ok { key := ⟨Bytes.copyFrom keyLen body 0 (by omega)⟩
          nonce := Bytes.copyFrom nonceLen body keyLen hlen }

theorem ClientInfoBody.decode_prefix_encode (body : ClientInfoBody) :
    decodePrefix body.encodePrefix = .ok body := by
  obtain ⟨⟨key⟩, nonce⟩ := body
  have hlen : (encodePrefix ⟨⟨key⟩, nonce⟩).length = keyLen + nonceLen := by
    rw [encodePrefix, List.length_append, key.property, nonce.property]
  have hlong : ¬(encodePrefix ⟨⟨key⟩, nonce⟩).length < prefixLen := by
    rw [hlen]
    exact Nat.lt_irrefl _
  unfold decodePrefix
  rw [dif_neg hlong]
  have hkey : Bytes.copyFrom keyLen (encodePrefix ⟨⟨key⟩, nonce⟩) 0 (by omega) = key :=
    Bytes.copy_from_of_eq [] key nonce.val rfl rfl _
  have hnonce : Bytes.copyFrom nonceLen (encodePrefix ⟨⟨key⟩, nonce⟩) keyLen (by omega) = nonce :=
    Bytes.copy_from_of_eq key.val nonce [] (by rw [List.append_nil]; rfl) key.property.symm _
  exact congrArg₂ (fun key nonce => Except.ok (ClientInfoBody.mk ⟨key⟩ nonce)) hkey hnonce

/-- The start of the relay's answer to a login. -/
structure ServerInfoBody where
  nonce : Bytes nonceLen

def ServerInfoBody.encodePrefix (body : ServerInfoBody) : List UInt8 := body.nonce.val

/-! ## Packets -/

structure SendPacketBody where
  dest : NodeKey

def SendPacketBody.prefixLen : Nat := keyLen

def SendPacketBody.encodePrefix (body : SendPacketBody) : List UInt8 := body.dest.toBytes.val

def SendPacketBody.decodePrefix (body : List UInt8) : Except FrameError SendPacketBody :=
  if h : body.length < prefixLen then .error .truncated
  else
    have hlen : keyLen ≤ body.length := Nat.le_of_not_lt h
    .ok { dest := ⟨Bytes.copyFrom keyLen body 0 (by omega)⟩ }

structure RecvPacketBody where
  src : NodeKey

def RecvPacketBody.encodePrefix (body : RecvPacketBody) : List UInt8 := body.src.toBytes.val

def Frame.sendPacket (dest : NodeKey) (packet : List UInt8) : Frame :=
  ⟨.sendPacket, SendPacketBody.encodePrefix { dest } ++ packet⟩

def Frame.recvPacket (src : NodeKey) (packet : List UInt8) : Frame :=
  ⟨.recvPacket, RecvPacketBody.encodePrefix { src } ++ packet⟩

theorem SendPacketBody.decode_prefix_encode (dest : NodeKey) (packet : List UInt8) :
    decodePrefix (encodePrefix { dest } ++ packet) = .ok { dest } ∧
      (encodePrefix { dest } ++ packet).drop prefixLen = packet := by
  have hlen : (encodePrefix { dest }).length = prefixLen := dest.toBytes.property
  constructor
  · have hlong : ¬(encodePrefix { dest } ++ packet).length < prefixLen := by
      rw [List.length_append, hlen]
      omega
    unfold decodePrefix
    rw [dif_neg hlong]
    exact congrArg (fun bytes => Except.ok (SendPacketBody.mk ⟨bytes⟩))
      (Bytes.copy_from_of_eq [] dest.toBytes packet rfl rfl _)
  · rw [← hlen, List.drop_left]

theorem SendPacketBody.of_decode_prefix {payload : List UInt8} {body : SendPacketBody}
    (h : decodePrefix payload = .ok body) :
    payload = encodePrefix body ++ payload.drop prefixLen := by
  unfold decodePrefix at h
  split at h
  · cases h
  · cases h
    exact (List.take_append_drop prefixLen payload).symm

theorem Frame.recv_packet_inj {src src' : NodeKey} {packet packet' : List UInt8}
    (h : recvPacket src packet = recvPacket src' packet') : src = src' ∧ packet = packet' := by
  have hlen : src.toBytes.val.length = src'.toBytes.val.length :=
    src.toBytes.property.trans src'.toBytes.property.symm
  obtain ⟨hsrc, hpacket⟩ := List.append_inj (congrArg Frame.payload h) hlen
  obtain ⟨bytes⟩ := src
  obtain ⟨bytes'⟩ := src'
  exact ⟨congrArg NodeKey.mk (Subtype.ext hsrc), hpacket⟩

theorem Frame.send_packet_inj {dest dest' : NodeKey} {packet packet' : List UInt8}
    (h : sendPacket dest packet = sendPacket dest' packet') : dest = dest' ∧ packet = packet' := by
  have hrecv : recvPacket dest packet = recvPacket dest' packet' :=
    congrArg (Frame.mk .recvPacket) (congrArg Frame.payload h)
  exact recv_packet_inj hrecv

/-! ## Notices about peers -/

inductive PeerGoneReason where
  | disconnected
  | notHere
  deriving DecidableEq

def PeerGoneReason.toByte : PeerGoneReason → UInt8
  | disconnected => 0x00
  | notHere => 0x01

def PeerGoneReason.tryFrom (value : UInt8) : Except FrameError PeerGoneReason :=
  if value = 0x00 then .ok disconnected
  else if value = 0x01 then .ok notHere
  else .error (.invalidPeerGoneReason value)

structure PeerGoneBody where
  key : NodeKey
  reason : PeerGoneReason
  deriving DecidableEq

def PeerGoneBody.len : Nat := keyLen + 1

def PeerGoneBody.encode (body : PeerGoneBody) : List UInt8 :=
  body.key.toBytes.val ++ [body.reason.toByte]

def PeerGoneBody.decode (body : List UInt8) : Except FrameError PeerGoneBody :=
  if h : body.length ≠ len then .error (.invalidBodyLength len body.length)
  else do
    have hlen : body.length = keyLen + 1 := not_not.mp h
    let reason ← PeerGoneReason.tryFrom (body.get ⟨keyLen, by omega⟩)
    return { key := ⟨Bytes.copyFrom keyLen body 0 (by omega)⟩, reason }

def PeerPresentFlags.regular : UInt8 := 0x01

structure PeerPresentBody where
  key : NodeKey
  ip : Option (Bytes 16)
  port : Option UInt16
  flags : UInt8
  deriving DecidableEq

namespace PeerPresentBody

/-- A notice without an address. -/
def new (key : NodeKey) (flags : UInt8) : PeerPresentBody :=
  { key, ip := none, port := none, flags }

def encode (body : PeerPresentBody) : List UInt8 :=
  body.key.toBytes.val ++ (body.ip.getD ⟨List.replicate 16 0, rfl⟩).val ++
    (toBeBytes16 (body.port.getD 0)).val ++ [body.flags]

def readAddress (body : List UInt8) (h : keyLen + 16 + 2 ≤ body.length) : Bytes 16 × UInt16 :=
  (Bytes.copyFrom 16 body keyLen (by omega),
    fromBeBytes16 (body.get ⟨keyLen + 16, by omega⟩) (body.get ⟨keyLen + 17, by omega⟩))

/-- The forms with the key alone, with an address, and with an address and flags are read. -/
def decode (body : List UInt8) : Except FrameError PeerPresentBody :=
  if h : body.length < keyLen then .error .truncated
  else
    let key : NodeKey := ⟨Bytes.copyFrom keyLen body 0 (by omega)⟩
    if body.length = keyLen then .ok { key, ip := none, port := none, flags := 0 }
    else if haddress : body.length = keyLen + (16 + 2) then
      let (ip, port) := readAddress body (by omega)
      .ok { key, ip := some ip, port := some port, flags := 0 }
    else if hfull : keyLen + 16 + 2 + 1 ≤ body.length then
      let (ip, port) := readAddress body (by omega)
      .ok { key, ip := some ip, port := some port, flags := body.get ⟨keyLen + 16 + 2, by omega⟩ }
    else .error (.invalidBodyLength (keyLen + 16 + 2 + 1) body.length)

end PeerPresentBody

def Frame.peerGone (key : NodeKey) (reason : PeerGoneReason) : Frame :=
  ⟨.peerGone, PeerGoneBody.encode { key, reason }⟩

def Frame.peerPresent (key : NodeKey) : Frame :=
  ⟨.peerPresent, (PeerPresentBody.new key PeerPresentFlags.regular).encode⟩

theorem PeerGoneReason.try_from_to_byte (reason : PeerGoneReason) :
    tryFrom reason.toByte = .ok reason := by
  cases reason <;> rfl

theorem PeerGoneBody.decode_encode (body : PeerGoneBody) : decode body.encode = .ok body := by
  obtain ⟨⟨key, hkey⟩, reason⟩ := body
  have hlen : (encode ⟨⟨⟨key, hkey⟩⟩, reason⟩).length = len := by
    rw [encode, List.length_append, hkey]
    rfl
  have hreason : (encode ⟨⟨⟨key, hkey⟩⟩, reason⟩).get ⟨keyLen, hlen ▸ Nat.lt_succ_self keyLen⟩ =
      reason.toByte := by
    simp [encode, ← hkey]
  unfold decode
  rw [dif_neg (not_not.mpr hlen)]
  simp only [hreason, PeerGoneReason.try_from_to_byte]
  exact congrArg (fun bytes => Except.ok (PeerGoneBody.mk ⟨bytes⟩ reason))
    (Bytes.copy_from_of_eq [] ⟨key, hkey⟩ [reason.toByte] rfl rfl _)

theorem PeerPresentBody.decode_encode_new (key : NodeKey) (flags : UInt8) :
    ∃ body, decode (new key flags).encode = .ok body ∧ body.key = key := by
  obtain ⟨bytes, hbytes⟩ := key
  have hlen : (new ⟨bytes, hbytes⟩ flags).encode.length = keyLen + 16 + 2 + 1 := by
    simp [new, encode, toBeBytes16, hbytes]
  have hkey (h : 0 + keyLen ≤ (new ⟨bytes, hbytes⟩ flags).encode.length) :
      Bytes.copyFrom keyLen (new ⟨bytes, hbytes⟩ flags).encode 0 h = ⟨bytes, hbytes⟩ := by
    refine Bytes.copy_from_of_eq [] ⟨bytes, hbytes⟩
      (List.replicate 16 0 ++ ((toBeBytes16 0).val ++ [flags])) ?_ rfl h
    rw [encode, List.append_assoc, List.append_assoc]
    rfl
  unfold decode
  rw [dif_neg (by omega), if_neg (by omega), dif_neg (by omega), dif_pos (by omega)]
  exact ⟨_, rfl, congrArg NodeKey.mk (hkey _)⟩

end Crabscale.Derp
