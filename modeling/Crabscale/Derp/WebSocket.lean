import Crabscale.Transport.Stream

/-!
# WebSocket connections

DERP frames can be carried in binary messages of a WebSocket connection, which is read and written
as a stream of bytes. The connection is written through a sink that is polled: a call is given what
the sink will answer, one answer for each poll that the call makes of it. A ping of the client is
answered by the next write.
-/

namespace Crabscale.Derp

open Rust
open Transport (Poll)

/-! ## Frames -/

def maxFrameBodyLen : Nat := 1024 * 1024

def maxWebsocketMessageLen : Nat := maxFrameBodyLen

namespace Opcode

def text : UInt8 := 0x1

def binary : UInt8 := 0x2

def close : UInt8 := 0x8

def ping : UInt8 := 0x9

def pong : UInt8 := 0xA

end Opcode

inductive WsFrame where
  | binary (data : List UInt8)
  | text (data : List UInt8)
  | ping (payload : List UInt8)
  | pong (payload : List UInt8)
  | close
  deriving DecidableEq

/-- The end of a connection, which fixes the direction in which frames are masked. -/
inductive WebSocketRole where
  | server
  | client
  deriving DecidableEq

/-- What is wrong with a frame to be sent. -/
inductive WsErrorKind where
  | oversized
  deriving DecidableEq

def WsErrorKind.display : WsErrorKind → String
  | .oversized => "WebSocket message exceeds the size limit"

def WsFrame.parts : WsFrame → UInt8 × List UInt8
  | .binary data => (Opcode.binary, data)
  | .text data => (Opcode.text, data)
  | .ping payload => (Opcode.ping, payload)
  | .pong payload => (Opcode.pong, payload)
  | .close => (Opcode.close, [])

def encodeLength (maskBit : UInt8) (length : Nat) : List UInt8 :=
  if length ≤ 125 then [maskBit ||| UInt8.ofNat length]
  else if length ≤ 0xFFFF then (maskBit ||| 126) :: (toBeBytes16 (UInt16.ofNat length)).val
  else (maskBit ||| 127) :: (toBeBytes64 length).val

def applyMask (key : Bytes 4) (payload : List UInt8) : List UInt8 :=
  payload.mapIdx fun i byte => byte ^^^ key.val[i % 4]!

def zeroMask : Bytes 4 := ⟨[0, 0, 0, 0], rfl⟩

def encode (role : WebSocketRole) (frame : WsFrame) : Except WsErrorKind (List UInt8) :=
  let (opcode, payload) := frame.parts
  if payload.length > maxWebsocketMessageLen then .error .oversized
  else
    match role with
    | .server => .ok ((0x80 ||| opcode) :: encodeLength 0 payload.length ++ payload)
    | .client =>
      .ok ((0x80 ||| opcode) :: encodeLength 0x80 payload.length ++ zeroMask.val ++
        applyMask zeroMask payload)

/-! ## The sink -/

inductive WsIoError where
  | invalidData (kind : WsErrorKind)
  | inner (message : String)
  deriving DecidableEq

structure SinkAnswer where
  poll : Poll (Except WsIoError Unit)
  written : Nat := 0
  deriving DecidableEq

def SinkAnswer.done : SinkAnswer where
  poll := .ready (.ok ())

/-- The sink: the frames that were started, the bytes of them that wait, and those that were
written. -/
structure Framed where
  role : WebSocketRole
  sent : List WsFrame := []
  writeBuf : List UInt8 := []
  wire : List UInt8 := []
  deriving DecidableEq

namespace Framed

/-- Some of the waiting bytes are written. -/
def write (sink : Framed) (n : Nat) : Framed :=
  { sink with writeBuf := sink.writeBuf.drop n, wire := sink.wire ++ sink.writeBuf.take n }

/-- Ask whether a frame can be started. -/
def pollReady (sink : Framed) (answer : SinkAnswer) : Poll (Except WsIoError Unit) × Framed :=
  (answer.poll, sink.write answer.written)

def startSend (sink : Framed) (frame : WsFrame) : Except WsIoError Framed :=
  match encode sink.role frame with
  | .error kind => .error (.invalidData kind)
  | .ok bytes =>
    .ok { sink with sent := sink.sent ++ [frame], writeBuf := sink.writeBuf ++ bytes }

def pollFlush (sink : Framed) (answer : SinkAnswer) : Poll (Except WsIoError Unit) × Framed :=
  match answer.poll with
  | .ready (.ok ()) => (.ready (.ok ()), sink.write sink.writeBuf.length)
  | .ready (.error error) => (.ready (.error error), sink.write answer.written)
  | .pending => (.pending, sink.write answer.written)

def pollClose (sink : Framed) (answer : SinkAnswer) (shutdown : Poll (Except WsIoError Unit)) :
    Poll (Except WsIoError Unit) × Framed :=
  match sink.pollFlush answer with
  | (.ready (.ok ()), sink) => (shutdown, sink)
  | (.ready (.error error), sink) => (.ready (.error error), sink)
  | (.pending, sink) => (.pending, sink)

/-- Send a frame: readiness, start and flush. What is left of the answers is handed on. Answers that
end early end with a pending one. -/
def send (sink : Framed) (answers : List SinkAnswer) (frame : WsFrame) :
    Poll (Except WsIoError Unit) × Framed × List SinkAnswer :=
  match answers with
  | [] => (.pending, sink, [])
  | readiness :: answers =>
    match sink.pollReady readiness with
    | (.pending, sink) => (.pending, sink, answers)
    | (.ready (.error error), sink) => (.ready (.error error), sink, answers)
    | (.ready (.ok ()), sink) =>
      match sink.startSend frame with
      | .error error => (.ready (.error error), sink, answers)
      | .ok sink =>
        match answers with
        | [] => (.pending, sink, [])
        | flush :: answers => ((sink.pollFlush flush).1, (sink.pollFlush flush).2, answers)

end Framed

/-! ## The byte stream -/

/-- A connection that is read and written as bytes. -/
structure WebSocketByteStream where
  inner : Framed
  readBuf : List UInt8 := []
  pendingPongs : List (List UInt8) := []
  deriving DecidableEq

inductive NextFrame where
  | pending
  | ended
  | failed (error : WsIoError)
  | frame (frame : WsFrame)
  deriving DecidableEq

namespace WebSocketByteStream

def withRole (role : WebSocketRole) : WebSocketByteStream where
  inner := { role }

/-- Read into a buffer with room for some bytes: the answer, and the bytes that were added. A
message without bytes is skipped. -/
def pollRead (stream : WebSocketByteStream) (remaining : Nat) (frames : List NextFrame) :
    Poll (Except WsIoError Unit) × List UInt8 × WebSocketByteStream :=
  if stream.readBuf ≠ [] then
    let n := min stream.readBuf.length remaining
    (.ready (.ok ()), stream.readBuf.take n, { stream with readBuf := stream.readBuf.drop n })
  else
    match frames with
    | [] => (.pending, [], stream)
    | .frame (.binary data) :: frames => { stream with readBuf := data }.pollRead remaining frames
    | .frame (.text data) :: frames => { stream with readBuf := data }.pollRead remaining frames
    | .frame (.ping payload) :: frames =>
      { stream with pendingPongs := stream.pendingPongs ++ [payload] }.pollRead remaining frames
    | .frame (.pong _) :: frames => stream.pollRead remaining frames
    | .frame .close :: _ => (.ready (.ok ()), [], stream)
    | .failed error :: _ => (.ready (.error error), [], stream)
    | .ended :: _ => (.ready (.ok ()), [], stream)
    | .pending :: _ => (.pending, [], stream)

/-- Answer the pings that wait, one after another. A pong leaves the queue before the sink is asked
whether it can take it. -/
def sendPongs (inner : Framed) (answers : List SinkAnswer) (pongs : List (List UInt8)) :
    Poll (Except WsIoError Unit) × Framed × List (List UInt8) × List SinkAnswer :=
  match pongs with
  | [] => (.ready (.ok ()), inner, [], answers)
  | pong :: pongs =>
    match inner.send answers (.pong pong) with
    | (.ready (.ok ()), inner, answers) => sendPongs inner answers pongs
    | (.ready (.error error), inner, answers) => (.ready (.error error), inner, pongs, answers)
    | (.pending, inner, answers) => (.pending, inner, pongs, answers)

def pollWrite (stream : WebSocketByteStream) (answers : List SinkAnswer) (buf : List UInt8) :
    Poll (Except WsIoError Nat) × WebSocketByteStream :=
  match sendPongs stream.inner answers stream.pendingPongs with
  | (.pending, inner, pendingPongs, _) => (.pending, { stream with inner, pendingPongs })
  | (.ready (.error error), inner, pendingPongs, _) =>
    (.ready (.error error), { stream with inner, pendingPongs })
  | (.ready (.ok ()), inner, pendingPongs, answers) =>
    match inner.send answers (.binary buf) with
    | (.pending, inner, _) => (.pending, { stream with inner, pendingPongs })
    | (.ready (.error error), inner, _) =>
      (.ready (.error error), { stream with inner, pendingPongs })
    | (.ready (.ok ()), inner, _) =>
      (.ready (.ok buf.length), { stream with inner, pendingPongs })

def pollFlush (stream : WebSocketByteStream) (answer : SinkAnswer) :
    Poll (Except WsIoError Unit) × WebSocketByteStream :=
  ((stream.inner.pollFlush answer).1, { stream with inner := (stream.inner.pollFlush answer).2 })

/-- Shut the connection down. -/
def pollShutdown (stream : WebSocketByteStream) (answer : SinkAnswer)
    (shutdown : Poll (Except WsIoError Unit)) :
    Poll (Except WsIoError Unit) × WebSocketByteStream :=
  ((stream.inner.pollClose answer shutdown).1,
    { stream with inner := (stream.inner.pollClose answer shutdown).2 })

end WebSocketByteStream

end Crabscale.Derp
