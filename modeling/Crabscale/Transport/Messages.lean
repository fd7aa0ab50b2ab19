import Crabscale.Rust.Bytes

/-!
# Handshake messages

A header with the type and the length of the rest, then the fields one after another. What is
written is read back (`parse_init_message_write`, `parse_response_message_write`).
-/

namespace Crabscale.Transport

open Rust

/-! ## Constants and errors -/

def initMessageLen : Nat := 101

def responseMessageLen : Nat := 51

def aeadTagLen : Nat := 16

def msgTypeInit : UInt8 := 0x01

def msgTypeResponse : UInt8 := 0x02

def minSupportedCapver : UInt16 := 113

def maxRecordFrameSize : Nat := 4096

def recordHeaderLen : Nat := 3

def maxRecordPlaintext : Nat := maxRecordFrameSize - recordHeaderLen - aeadTagLen

def msgTypeError : UInt8 := 0x03

def msgTypeRecord : UInt8 := 0x04

inductive TransportError where
  | invalidInitMessage
  | invalidResponseMessage
  | invalidRecord
  | unsupportedCapabilityVersion (version : UInt16)
  | unexpectedMessageType (msgType : UInt8)
  | oversized
  | handshakeFailed
  deriving DecidableEq

def TransportError.display : TransportError → String
  | invalidInitMessage => "invalid TS2021 init message"
  | invalidResponseMessage => "invalid TS2021 response message"
  | invalidRecord => "invalid Noise record frame"
  | unsupportedCapabilityVersion version =>
    "unsupported capability version " ++ toString version.toNat
  | unexpectedMessageType msgType =>
    "unexpected message type 0x" ++
      String.ofList [Nat.digitChar (msgType.toNat / 16), Nat.digitChar (msgType.toNat % 16)]
  | oversized => "message exceeds the protocol size limit"
  | handshakeFailed => "Noise handshake failed"

/-! ## The first message -/

structure InitMessage where
  version : UInt16
  clientEphemeral : Bytes 32
  clientStaticCiphertext : Bytes 48
  payloadTag : Bytes aeadTagLen
  deriving DecidableEq

def parseInitMessage (buf : List UInt8) : Except TransportError InitMessage :=
  if h : buf.length = initMessageLen then
    if buf.get ⟨2, by rw [h]; decide⟩ ≠ msgTypeInit then
      .error (.unexpectedMessageType (buf.get ⟨2, by rw [h]; decide⟩))
    else if fromBeBytes16 (buf.get ⟨3, by rw [h]; decide⟩)
      (buf.get ⟨4, by rw [h]; decide⟩) ≠ 96 then
      .error .invalidInitMessage
    else
      .ok
        { version := fromBeBytes16 (buf.get ⟨0, by rw [h]; decide⟩) (buf.get ⟨1, by rw [h]; decide⟩)
          clientEphemeral := Bytes.copyFrom 32 buf 5 (by rw [h]; decide)
          clientStaticCiphertext := Bytes.copyFrom 48 buf 37 (by rw [h]; decide)
          payloadTag := Bytes.copyFrom aeadTagLen buf 85 (by rw [h]; decide) }
  else .error .invalidInitMessage

def writeInitMessage (message : InitMessage) : Bytes initMessageLen :=
  ⟨(toBeBytes16 message.version).val ++ msgTypeInit :: (toBeBytes16 96).val ++
      message.clientEphemeral.val ++ message.clientStaticCiphertext.val ++
        message.payloadTag.val, by
    simp [message.clientEphemeral.property, message.clientStaticCiphertext.property,
      message.payloadTag.property, (toBeBytes16 _).property, aeadTagLen, initMessageLen]⟩

theorem parse_init_message_write (message : InitMessage) :
    parseInitMessage (writeInitMessage message).val = .ok message := by
  obtain ⟨version, ephemeral, ciphertext, tag⟩ := message
  unfold parseInitMessage
  rw [dif_pos (writeInitMessage _).property]
  split
  case isTrue htype => exact absurd rfl htype
  split
  case isTrue hlen => exact absurd (from_be_bytes16_to_be_bytes16 96) hlen
  let header := (toBeBytes16 version).val ++ msgTypeInit :: (toBeBytes16 96).val
  have hephemeral : (header ++ ephemeral.val).length = 37 := by
    rw [List.length_append, ephemeral.property]
    rfl
  have hciphertext : (header ++ ephemeral.val ++ ciphertext.val).length = 85 := by
    rw [List.length_append, hephemeral, ciphertext.property]
  congr
  · exact from_be_bytes16_to_be_bytes16 version
  · exact Bytes.copy_from_of_eq header ephemeral (ciphertext.val ++ tag.val)
      (by simp [writeInitMessage, header]) rfl _
  · exact Bytes.copy_from_of_eq (header ++ ephemeral.val) ciphertext tag.val
      (by simp [writeInitMessage, header]) hephemeral.symm _
  · exact Bytes.copy_from_of_eq (header ++ ephemeral.val ++ ciphertext.val) tag []
      (by simp [writeInitMessage, header]) hciphertext.symm _

/-! ## The answer -/

structure ResponseMessage where
  serverEphemeral : Bytes 32
  authTag : Bytes aeadTagLen
  deriving DecidableEq

def writeResponseMessage (serverEphemeral : Bytes 32) (authTag : Bytes aeadTagLen) :
    Bytes responseMessageLen :=
  ⟨msgTypeResponse :: (toBeBytes16 48).val ++ serverEphemeral.val ++ authTag.val, by
    simp [serverEphemeral.property, authTag.property, (toBeBytes16 _).property, aeadTagLen,
      responseMessageLen]⟩

def parseResponseMessage (buf : List UInt8) : Except TransportError ResponseMessage :=
  if h : buf.length = responseMessageLen then
    if buf.get ⟨0, by rw [h]; decide⟩ ≠ msgTypeResponse then
      .error (.unexpectedMessageType (buf.get ⟨0, by rw [h]; decide⟩))
    else if fromBeBytes16 (buf.get ⟨1, by rw [h]; decide⟩)
      (buf.get ⟨2, by rw [h]; decide⟩) ≠ 48 then
      .error .invalidResponseMessage
    else
      .ok
        { serverEphemeral := Bytes.copyFrom 32 buf 3 (by rw [h]; decide)
          authTag := Bytes.copyFrom aeadTagLen buf 35 (by rw [h]; decide) }
  else .error .invalidResponseMessage

theorem parse_response_message_write (serverEphemeral : Bytes 32) (authTag : Bytes aeadTagLen) :
    parseResponseMessage (writeResponseMessage serverEphemeral authTag).val =
      .ok { serverEphemeral, authTag } := by
  unfold parseResponseMessage
  rw [dif_pos (writeResponseMessage _ _).property]
  split
  case isTrue htype => exact absurd rfl htype
  split
  case isTrue hlen => exact absurd (from_be_bytes16_to_be_bytes16 48) hlen
  let header := msgTypeResponse :: (toBeBytes16 48).val
  have hephemeral : (header ++ serverEphemeral.val).length = 35 := by
    rw [List.length_append, serverEphemeral.property]
    rfl
  congr
  · exact Bytes.copy_from_of_eq header serverEphemeral authTag.val
      (by simp [writeResponseMessage, header]) rfl _
  · exact Bytes.copy_from_of_eq (header ++ serverEphemeral.val) authTag []
      (by simp [writeResponseMessage, header]) hephemeral.symm _

end Crabscale.Transport
