import Crabscale.Transport.Record

/-!
# The encrypted stream

A `NoiseStream` carries records over an inner stream that is polled. A call is given what the inner
stream will answer, one answer for each poll that the call makes of it.
-/

namespace Crabscale.Transport

open Rust

inductive Poll (α : Type) where
  | pending
  | ready (value : α)
  deriving DecidableEq

inductive IoError where
  | other (message : String)
  | writeZero
  | inner (message : String)
  | panicked
  deriving DecidableEq

def IoError.ofFault : RecordFault → IoError
  | .transport error => .other error.display
  | .nonceExhausted => .panicked

def readChunkLen : Nat := 4096

/-- What an inner read yields: at least one byte, and no more than the buffer holds. -/
structure Chunk where
  bytes : List UInt8
  ne_nil : bytes ≠ []
  length_le : bytes.length ≤ readChunkLen

inductive InnerRead where
  | pending
  | data (chunk : Chunk)
  | failed (message : String)

inductive InnerWrite where
  | pending
  | accepted (n : Nat)
  | failed (message : String)

structure NoiseStreamState where
  reader : RecordDecoder
  writer : RecordCipher
  readBuf : List UInt8 := []
  readPos : Nat := 0
  writeBuf : List UInt8 := []
  writePos : Nat := 0
  writeAcked : Nat := 0
  deriving DecidableEq

def NoiseStream.start (stream : NoiseStream) : NoiseStreamState where
  reader := .new stream.readKey
  writer := .new stream.writeKey

def sevenEight : NoiseStream := { readKey := keyOf 7, writeKey := keyOf 8 }

namespace NoiseStreamState

/-! ## Reads -/

/-- Hand over what fits of the decoded bytes. -/
def putSlice (stream : NoiseStreamState) (remaining : Nat) : List UInt8 × NoiseStreamState :=
  let n := min (stream.readBuf.length - stream.readPos) remaining
  ((stream.readBuf.drop stream.readPos).take n, { stream with readPos := stream.readPos + n })

/-- Read into a buffer with room for some bytes: the answer, the bytes that were added, and what is
left of the answers of the inner stream, which is at its end when there are none. -/
def pollRead (P : Primitives) (stream : NoiseStreamState) (reads : List InnerRead)
    (remaining : Nat) :
    Poll (Except IoError Unit) × List UInt8 × NoiseStreamState × List InnerRead :=
  if stream.readPos < stream.readBuf.length then
    let (bytes, stream) := stream.putSlice remaining
    (.ready (.ok ()), bytes, stream, reads)
  else
    let stream := { stream with readBuf := [], readPos := 0 }
    match reads with
    | [] => (.ready (.ok ()), [], stream, [])
    | .pending :: reads => (.pending, [], stream, reads)
    | .failed message :: reads => (.ready (.error (.inner message)), [], stream, reads)
    | .data chunk :: reads =>
      match stream.reader.feed P chunk.bytes with
      | (.error fault, reader) => (.ready (.error (.ofFault fault)), [],
        { stream with reader }, reads)
      | (.ok plaintext, reader) =>
        let (bytes, stream) := { stream with reader, readBuf := plaintext }.putSlice remaining
        (.ready (.ok ()), bytes, stream, reads)

/-! ## Writes -/

/-- Hand what is left of the encoded bytes to the inner stream: the answer, and the bytes that the
inner stream accepted. A list of answers that ends early ends with a pending one. -/
def flushPending (answers : List InnerWrite) (stream : NoiseStreamState) :
    Poll (Except IoError Unit) × List UInt8 × NoiseStreamState :=
  if stream.writePos < stream.writeBuf.length then
    match answers with
    | [] | .pending :: _ => (.pending, [], stream)
    | .failed message :: _ => (.ready (.error (.inner message)), [], stream)
    | .accepted 0 :: _ => (.ready (.error .writeZero), [], stream)
    | .accepted (n + 1) :: answers =>
      let slice := stream.writeBuf.drop stream.writePos
      let n := min (n + 1) slice.length
      let (answer, bytes, stream) :=
        flushPending answers { stream with writePos := stream.writePos + n }
      (answer, slice.take n ++ bytes, stream)
  else (.ready (.ok ()), [], { stream with writeBuf := [], writePos := 0 })

def finishWrite (stream : NoiseStreamState) (answers : List InnerWrite) :
    Poll (Except IoError Nat) × List UInt8 × NoiseStreamState :=
  match flushPending answers stream with
  | (.ready (.ok ()), bytes, stream) =>
    (.ready (.ok stream.writeAcked), bytes, { stream with writeAcked := 0 })
  | (.ready (.error error), bytes, stream) => (.ready (.error error), bytes, stream)
  | (.pending, bytes, stream) => (.pending, bytes, stream)

/-- Write a buffer. A write that is under way is finished first, and acknowledged in its place. -/
def pollWrite (P : Primitives) (stream : NoiseStreamState) (answers : List InnerWrite)
    (buf : List UInt8) : Poll (Except IoError Nat) × List UInt8 × NoiseStreamState :=
  if stream.writeAcked > 0 then stream.finishWrite answers
  else
    match stream.writer.encode P buf with
    | none => (.ready (.error .panicked), [], stream)
    | some (framed, writer) =>
      { stream with
        writer
        writeBuf := framed
        writePos := 0
        writeAcked := buf.length }.finishWrite answers

def flushThen (stream : NoiseStreamState) (answers : List InnerWrite)
    (inner : Poll (Except IoError Unit)) :
    Poll (Except IoError Unit) × List UInt8 × NoiseStreamState :=
  match flushPending answers stream with
  | (.ready (.ok ()), bytes, stream) => (inner, bytes, { stream with writeAcked := 0 })
  | (.ready (.error error), bytes, stream) => (.ready (.error error), bytes, stream)
  | (.pending, bytes, stream) => (.pending, bytes, stream)

def pollFlush (stream : NoiseStreamState) (answers : List InnerWrite)
    (inner : Poll (Except IoError Unit)) :
    Poll (Except IoError Unit) × List UInt8 × NoiseStreamState :=
  stream.flushThen answers inner

def pollShutdown (stream : NoiseStreamState) (answers : List InnerWrite)
    (inner : Poll (Except IoError Unit)) :
    Poll (Except IoError Unit) × List UInt8 × NoiseStreamState :=
  stream.flushThen answers inner

end NoiseStreamState

end Crabscale.Transport
