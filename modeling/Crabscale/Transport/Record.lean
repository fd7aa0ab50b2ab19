import Crabscale.Interaction.Framing
import Crabscale.Transport.Noise
import Mathlib.Data.List.Nodup

/-!
# Records

A record is a header with a type and a length, an encrypted text and its tag. A cipher counts the
records that it has sealed or opened, and the count is the nonce of the next one. A cipher with the
same key and count opens the records one after another (`seal_all_frames`), and by the library on
frames `records_delivered` follows for every way to cut the bytes into pieces.
-/

namespace Crabscale.Transport

open Rust Interaction Interaction.Framing

/-- The largest value of a `u64`. -/
def maxNonce : Nat := 18446744073709551615

structure RecordCipher where
  key : Bytes 32
  nonce : Nat
  nonce_le : nonce ≤ maxNonce
  deriving DecidableEq

/-- Why records cannot be opened: an error, or the panic of a counter at its end. -/
inductive RecordFault where
  | transport (error : TransportError)
  | nonceExhausted
  deriving DecidableEq

structure Record where
  nonce : Bytes 12
  body : List UInt8
  tag : Bytes aeadTagLen
  deriving DecidableEq

def Record.frame (record : Record) : List UInt8 :=
  msgTypeRecord :: (toBeBytes16 (UInt16.ofNat (record.body.length + aeadTagLen))).val ++
    record.body ++ record.tag.val

namespace RecordCipher

def new (key : Bytes 32) : RecordCipher := { key, nonce := 0, nonce_le := Nat.zero_le _ }

def nonceBytes (nonce : Nat) : Bytes 12 :=
  Bytes.append ⟨List.replicate 4 0, rfl⟩ (toBeBytes64 nonce)

/-- Take the next nonce; `none` is the panic when there is none left. -/
def nextNonce (cipher : RecordCipher) : Option (Bytes 12 × RecordCipher) :=
  if h : cipher.nonce = maxNonce then none
  else
    some (nonceBytes cipher.nonce,
      { cipher with
        nonce := cipher.nonce + 1
        nonce_le := Nat.lt_of_le_of_ne cipher.nonce_le h })

variable (P : Primitives)

def sealChunk (key : Bytes 32) (nonce : Bytes 12) (chunk : List UInt8) : Record :=
  let (body, tag) := P.encrypt key nonce [] (⟨chunk, rfl⟩ : Bytes chunk.length)
  { nonce, body := body.val, tag }

def sealAll (cipher : RecordCipher) : List (List UInt8) → Option (List Record × RecordCipher)
  | [] => some ([], cipher)
  | chunk :: rest =>
    match cipher.nextNonce with
    | none => none
    | some (nonce, next) =>
      match next.sealAll rest with
      | none => none
      | some (records, last) => some (sealChunk P cipher.key nonce chunk :: records, last)

def encode (cipher : RecordCipher) (plaintext : List UInt8) : Option (List UInt8 × RecordCipher) :=
  match cipher.sealAll P (chunks maxRecordPlaintext plaintext) with
  | none => none
  | some (records, last) => some ((records.map Record.frame).flatten, last)

def openBody (key : Bytes 32) (nonce : Bytes 12) (buf : List UInt8) (n : Nat)
    (hbuf : recordHeaderLen + n + aeadTagLen ≤ buf.length) : Option (List UInt8) :=
  (P.decrypt key nonce [] (Bytes.copyFrom n buf recordHeaderLen (by omega))
    (Bytes.copyFrom aeadTagLen buf (recordHeaderLen + n) hbuf)).map Subtype.val

def decodeOne (cipher : RecordCipher) (buf : List UInt8) :
    Except RecordFault (Option (List UInt8 × Nat)) × RecordCipher :=
  match buf.take recordHeaderLen with
  | [msgType, high, low] =>
    let len := (fromBeBytes16 high low).toNat
    let total := recordHeaderLen + len
    if total > maxRecordFrameSize then (.error (.transport .oversized), cipher)
    else if hbuf : buf.length < total then (.ok none, cipher)
    else if msgType = msgTypeRecord then
      if hlen : len < aeadTagLen then (.error (.transport .invalidRecord), cipher)
      else
        match cipher.nextNonce with
        | none => (.error .nonceExhausted, cipher)
        | some (nonce, next) =>
          match openBody P cipher.key nonce buf (len - aeadTagLen) (by omega) with
          | none => (.error (.transport .handshakeFailed), next)
          | some text => (.ok (some (text, total)), next)
    else if msgType = msgTypeError then (.error (.transport .handshakeFailed), cipher)
    else (.error (.transport (.unexpectedMessageType msgType)), cipher)
  | _ => (.ok none, cipher)

end RecordCipher

structure RecordDecoder where
  cipher : RecordCipher
  buf : List UInt8
  deriving DecidableEq

namespace RecordDecoder

def new (key : Bytes 32) : RecordDecoder := { cipher := .new key, buf := [] }

variable (P : Primitives)

/-- Receive bytes and decode all records that are complete. A record takes at least its header, so
that there are fewer records than bytes. -/
def feed (decoder : RecordDecoder) (data : List UInt8) :
    Except RecordFault (List UInt8) × RecordDecoder :=
  let buf := decoder.buf ++ data
  let (result, cipher, buf) := drain (RecordCipher.decodeOne P) (buf.length + 1) decoder.cipher buf
  (result, { cipher, buf })

end RecordDecoder

open RecordCipher

/-! ## One record -/

/-- Decryption inverts encryption. -/
def Primitives.Opens (P : Primitives) : Prop :=
  ∀ (key : Bytes 32) (nonce : Bytes 12) (aad : List UInt8) {n : Nat} (cleartext : Bytes n),
    P.decrypt key nonce aad (P.encrypt key nonce aad cleartext).1
      (P.encrypt key nonce aad cleartext).2 = some cleartext

variable {P : Primitives} {cipher next : RecordCipher} {nonce : Bytes 12} {chunk : List UInt8}

theorem length_seal_chunk (key : Bytes 32) (nonce : Bytes 12) (chunk : List UInt8) :
    (sealChunk P key nonce chunk).body.length = chunk.length :=
  (P.encrypt key nonce [] (⟨chunk, rfl⟩ : Bytes chunk.length)).1.property

theorem length_frame (record : Record) :
    record.frame.length = recordHeaderLen + (record.body.length + aeadTagLen) := by
  simp only [Record.frame, List.length_cons, List.length_append, (toBeBytes16 _).property,
    record.tag.property, recordHeaderLen]
  omega

theorem frame_eq (record : Record) (hlen : record.body.length ≤ maxRecordPlaintext) :
    ∃ high low, record.frame = [msgTypeRecord, high, low] ++ (record.body ++ record.tag.val) ∧
      (fromBeBytes16 high low).toNat = record.body.length + aeadTagLen := by
  let len := UInt16.ofNat (record.body.length + aeadTagLen)
  refine ⟨UInt8.ofNat (len.toNat / 256), UInt8.ofNat len.toNat, ?_, ?_⟩
  · rw [Record.frame, List.append_assoc]
    rfl
  · rw [from_be_bytes16_to_be_bytes16, UInt16.toNat_ofNat']
    refine Nat.mod_eq_of_lt ?_
    have hmax : maxRecordPlaintext + aeadTagLen < 2 ^ 16 := by decide
    omega

theorem open_body_frame (hopens : P.Opens) (key : Bytes 32) (nonce : Bytes 12)
    (chunk : List UInt8) {header rest buf : List UInt8} (hheader : header.length = recordHeaderLen)
    (hframe : buf = header ++ ((sealChunk P key nonce chunk).body ++
      (sealChunk P key nonce chunk).tag.val) ++ rest) {n : Nat} (hn : n = chunk.length)
    (hbuf : recordHeaderLen + n + aeadTagLen ≤ buf.length) :
    openBody P key nonce buf n hbuf = some chunk := by
  subst hn
  have hopened := hopens key nonce [] (⟨chunk, rfl⟩ : Bytes chunk.length)
  unfold openBody
  rw [Bytes.copy_from_of_eq header
      (P.encrypt key nonce [] (⟨chunk, rfl⟩ : Bytes chunk.length)).1
      ((sealChunk P key nonce chunk).tag.val ++ rest)
      (by rw [hframe]; simp [sealChunk]) hheader.symm,
    Bytes.copy_from_of_eq (header ++ (sealChunk P key nonce chunk).body)
      (P.encrypt key nonce [] (⟨chunk, rfl⟩ : Bytes chunk.length)).2 rest
      (by rw [hframe]; simp [sealChunk])
      (by rw [List.length_append, hheader, length_seal_chunk]), hopened]
  rfl

theorem decode_one_short {buf : List UInt8} (h : buf.length < recordHeaderLen) :
    cipher.decodeOne P buf = (.ok none, cipher) := by
  unfold decodeOne
  split
  case h_1 msgType high low hheader =>
    have hlen := congrArg List.length hheader
    rw [List.length_take, Nat.min_eq_right (Nat.le_of_lt h)] at hlen
    exact absurd hlen (Nat.ne_of_lt h)
  case h_2 => rfl

theorem is_frame_seal (hopens : P.Opens) (hnext : cipher.nextNonce = some (nonce, next))
    (hlen : chunk.length ≤ maxRecordPlaintext) :
    IsFrame (decodeOne P) cipher
      (sealChunk P cipher.key nonce chunk).frame chunk next := by
  have hbody := length_seal_chunk (P := P) cipher.key nonce chunk
  obtain ⟨high, low, hframe, hvalue⟩ :=
    frame_eq (sealChunk P cipher.key nonce chunk)
      (Nat.le_trans (Nat.le_of_eq hbody) hlen)
  have htotal := length_frame (sealChunk P cipher.key nonce chunk)
  rw [hbody] at htotal hvalue
  have hmax : ¬recordHeaderLen + (chunk.length + aeadTagLen) > maxRecordFrameSize := by
    have hsum : recordHeaderLen + (maxRecordPlaintext + aeadTagLen) = maxRecordFrameSize := rfl
    omega
  refine ⟨?_, fun rest => ?_, fun front rest hfront hrest => ?_⟩
  · rw [hframe]
    exact List.cons_ne_nil _ _
  · have hheader : ((sealChunk P cipher.key nonce chunk).frame ++ rest).take
        recordHeaderLen = [msgTypeRecord, high, low] := by
      rw [hframe]
      rfl
    have hbuf : ¬((sealChunk P cipher.key nonce chunk).frame ++ rest).length <
        recordHeaderLen + (chunk.length + aeadTagLen) := by
      rw [List.length_append, htotal]
      omega
    unfold decodeOne
    rw [hheader]
    dsimp only
    simp only [hvalue, hmax, hbuf, if_false, dite_false, if_true]
    rw [dif_neg (by omega), hnext]
    dsimp only
    have hthree : [msgTypeRecord, high, low].length = recordHeaderLen := rfl
    rw [open_body_frame hopens cipher.key nonce chunk hthree (by rw [hframe])
      (Nat.add_sub_cancel ..), htotal]
  · have hshort : front.length < recordHeaderLen + (chunk.length + aeadTagLen) := by
      have hpos := List.length_pos_of_ne_nil hrest
      rw [hfront, List.length_append] at htotal
      omega
    -- The length is known only once the header is there.
    by_cases hthree : front.length < recordHeaderLen
    · exact decode_one_short hthree
    · have hheader : front.take recordHeaderLen = [msgTypeRecord, high, low] := by
        have htake := congrArg (List.take recordHeaderLen) (hframe.symm.trans hfront)
        rw [List.take_append_of_le_length (Nat.le_of_not_lt hthree)] at htake
        exact htake.symm
      unfold decodeOne
      rw [hheader]
      dsimp only
      simp only [hvalue, hmax, hshort, if_false, dite_true]

/-! ## All records -/

theorem next_nonce_eq_some (h : cipher.nextNonce = some (nonce, next)) :
    nonce = nonceBytes cipher.nonce ∧ next.nonce = cipher.nonce + 1 ∧
      next.key = cipher.key := by
  unfold nextNonce at h
  split at h
  · cases h
  · cases h
    exact ⟨rfl, rfl, rfl⟩

theorem seal_all_cons {texts : List (List UInt8)} {records : List Record} {last : RecordCipher}
    (h : cipher.sealAll P (chunk :: texts) = some (records, last)) :
    ∃ nonce next rest, cipher.nextNonce = some (nonce, next) ∧
      next.sealAll P texts = some (rest, last) ∧
      records = sealChunk P cipher.key nonce chunk :: rest := by
  rw [sealAll] at h
  split at h
  · cases h
  case h_2 nonce next hnext =>
    split at h
    · cases h
    case h_2 rest last' hrest =>
      cases h
      exact ⟨nonce, next, rest, hnext, hrest, rfl⟩

section SealAll

variable {texts : List (List UInt8)} {records : List Record} {last : RecordCipher}

theorem frames_seal_all (hopens : P.Opens)
    (htexts : ∀ text ∈ texts, text.length ≤ maxRecordPlaintext)
    (h : cipher.sealAll P texts = some (records, last)) :
    Frames (decodeOne P) cipher (records.map Record.frame) texts last := by
  induction texts generalizing cipher records with
  | nil =>
    cases h
    exact .nil (decode_one_short (by decide))
  | cons chunk texts ih =>
    obtain ⟨hchunk, htexts⟩ := List.forall_mem_cons.mp htexts
    obtain ⟨nonce, next, rest, hnext, hrest, rfl⟩ := seal_all_cons h
    exact .cons (is_frame_seal hopens hnext hchunk) (ih htexts hrest)

theorem length_frame_seal_all (htexts : ∀ text ∈ texts, text.length ≤ maxRecordPlaintext)
    (h : cipher.sealAll P texts = some (records, last)) :
    ∀ record ∈ records, record.frame.length ≤ maxRecordFrameSize := by
  induction texts generalizing cipher records with
  | nil =>
    cases h
    exact List.forall_mem_nil _
  | cons chunk texts ih =>
    obtain ⟨hchunk, htexts⟩ := List.forall_mem_cons.mp htexts
    obtain ⟨nonce, next, rest, -, hrest, rfl⟩ := seal_all_cons h
    refine List.forall_mem_cons.mpr ⟨?_, ih htexts hrest⟩
    rw [length_frame, length_seal_chunk]
    have hsum : recordHeaderLen + (maxRecordPlaintext + aeadTagLen) = maxRecordFrameSize := rfl
    omega

theorem nonces_seal_all (h : cipher.sealAll P texts = some (records, last)) :
    records.map Record.nonce =
      (List.range' cipher.nonce texts.length).map nonceBytes ∧
    last.nonce = cipher.nonce + texts.length := by
  induction texts generalizing cipher records with
  | nil =>
    cases h
    exact ⟨rfl, rfl⟩
  | cons chunk texts ih =>
    obtain ⟨nonce, next, rest, hnext, hrest, rfl⟩ := seal_all_cons h
    obtain ⟨hnonce, hcount, -⟩ := next_nonce_eq_some hnext
    obtain ⟨hnonces, hlast⟩ := ih hrest
    rw [hcount] at hnonces hlast
    refine ⟨?_, by rw [hlast, List.length_cons]; omega⟩
    rw [List.map_cons, hnonces, List.length_cons, List.range'_succ, List.map_cons, ← hnonce]
    rfl

theorem nodup_nonces_seal_all (h : cipher.sealAll P texts = some (records, last)) :
    (records.map Record.nonce).Nodup := by
  obtain ⟨hnonces, hlast⟩ := nonces_seal_all h
  rw [hnonces]
  refine List.Nodup.map_on (fun m hm n hn heq => ?_) List.nodup_range'
  have hbytes : toBeBytes64 m = toBeBytes64 n :=
    Subtype.ext (List.append_cancel_left (congrArg Subtype.val heq))
  have hle := last.nonce_le
  rw [hlast] at hle
  rw [List.mem_range'_1] at hm hn
  have hmax : maxNonce < 18446744073709551616 := by decide
  exact to_be_bytes64_inj (by omega) (by omega) hbytes

theorem seal_all_some (hfew : cipher.nonce + texts.length ≤ maxNonce) :
    ∃ records last, cipher.sealAll P texts = some (records, last) := by
  induction texts generalizing cipher with
  | nil => exact ⟨[], cipher, rfl⟩
  | cons chunk texts ih =>
    rw [List.length_cons] at hfew
    obtain ⟨nonce, next, hnext⟩ : ∃ nonce next, cipher.nextNonce = some (nonce, next) :=
      ⟨_, _, dif_neg (by omega)⟩
    obtain ⟨-, hcount, -⟩ := next_nonce_eq_some hnext
    obtain ⟨rest, last, hrest⟩ := ih (by omega : next.nonce + texts.length ≤ maxNonce)
    refine ⟨sealChunk P cipher.key nonce chunk :: rest, last, ?_⟩
    simp only [sealAll, hnext, hrest]

theorem seal_all_append {more : List (List UInt8)} {records' : List Record} {last' : RecordCipher}
    (h : cipher.sealAll P texts = some (records, last))
    (hmore : last.sealAll P more = some (records', last')) :
    cipher.sealAll P (texts ++ more) = some (records ++ records', last') := by
  induction texts generalizing cipher records with
  | nil =>
    cases h
    exact hmore
  | cons chunk texts ih =>
    obtain ⟨nonce, next, rest, hnext, hrest, rfl⟩ := seal_all_cons h
    rw [List.cons_append]
    simp only [sealAll, hnext, ih hrest]
    rfl

theorem seal_all_split {more : List (List UInt8)}
    (h : cipher.sealAll P (texts ++ more) = some (records, last)) :
    ∃ front middle rest, cipher.sealAll P texts = some (front, middle) ∧
      middle.sealAll P more = some (rest, last) ∧ records = front ++ rest := by
  induction texts generalizing cipher records with
  | nil => exact ⟨[], cipher, records, rfl, h, rfl⟩
  | cons chunk texts ih =>
    obtain ⟨nonce, next, tail, hnext, htail, rfl⟩ := seal_all_cons h
    obtain ⟨front, middle, rest, hfront, hrest, rfl⟩ := ih htail
    refine ⟨sealChunk P cipher.key nonce chunk :: front, middle, rest, ?_,
      hrest, rfl⟩
    simp only [sealAll, hnext, hfront]

end SealAll

/-! ## Writes and reads -/

def RecordCipher.encodeEach (P : Primitives) (cipher : RecordCipher) :
    List (List UInt8) → Option (List (List UInt8) × RecordCipher)
  | [] => some ([], cipher)
  | plaintext :: rest =>
    match cipher.encode P plaintext with
    | none => none
    | some (bytes, next) =>
      match next.encodeEach P rest with
      | none => none
      | some (outputs, last) => some (bytes :: outputs, last)

def RecordDecoder.feedEach (P : Primitives) (decoder : RecordDecoder) :
    List (List UInt8) → Except RecordFault (List (List UInt8)) × RecordDecoder
  | [] => (.ok [], decoder)
  | data :: rest =>
    match decoder.feed P data with
    | (.error fault, next) => (.error fault, next)
    | (.ok out, next) =>
      match next.feedEach P rest with
      | (.error fault, last) => (.error fault, last)
      | (.ok outputs, last) => (.ok (out :: outputs), last)

def recordTexts (writes : List (List UInt8)) : List (List UInt8) :=
  writes.flatMap (chunks maxRecordPlaintext)

theorem mem_record_texts {writes : List (List UInt8)} {text : List UInt8}
    (h : text ∈ recordTexts writes) : text ≠ [] ∧ text.length ≤ maxRecordPlaintext := by
  obtain ⟨plaintext, -, htext⟩ := List.mem_flatMap.mp h
  exact mem_chunks (by decide) htext

theorem flatten_record_texts (writes : List (List UInt8)) :
    (recordTexts writes).flatten = writes.flatten := by
  induction writes with
  | nil => rfl
  | cons plaintext writes ih =>
    rw [recordTexts, List.flatMap_cons, List.flatten_append, flatten_chunks (by decide),
      List.flatten_cons]
    exact congrArg _ ih

theorem encode_each_seal_all {writes : List (List UInt8)} {records : List Record}
    {last : RecordCipher} (h : cipher.sealAll P (recordTexts writes) = some (records, last)) :
    ∃ outputs, cipher.encodeEach P writes = some (outputs, last) ∧
      outputs.flatten = (records.map Record.frame).flatten := by
  induction writes generalizing cipher records with
  | nil =>
    cases h
    exact ⟨[], rfl, rfl⟩
  | cons plaintext writes ih =>
    rw [recordTexts, List.flatMap_cons] at h
    obtain ⟨front, middle, rest, hfront, hrest, rfl⟩ := seal_all_split h
    obtain ⟨outputs, houtputs, hbytes⟩ := ih hrest
    refine ⟨(front.map Record.frame).flatten :: outputs, ?_, ?_⟩
    · simp only [encodeEach, encode, hfront, houtputs]
    · rw [List.flatten_cons, hbytes, List.map_append, List.flatten_append]

theorem RecordDecoder.feed_eq {decoder : RecordDecoder} {data out buf : List UInt8}
    (h : drain (decodeOne P) ((decoder.buf ++ data).length + 1) decoder.cipher
      (decoder.buf ++ data) = (.ok out, next, buf)) :
    decoder.feed P data = (.ok out, { cipher := next, buf }) := by
  unfold RecordDecoder.feed
  dsimp only
  rw [h]

theorem feed_each_decoding {last : RecordCipher} {decoder : RecordDecoder}
    {frames texts : List (List UInt8)} {pieces : List (List UInt8)}
    (h : Decoding (decodeOne P) last pieces.flatten decoder.cipher decoder.buf frames
      texts) :
    ∃ outputs, decoder.feedEach P pieces = (.ok outputs, { cipher := last, buf := [] }) ∧
      outputs.flatten = texts.flatten := by
  induction pieces generalizing decoder frames texts with
  | nil =>
    obtain ⟨hbuf, rfl, rfl⟩ := h.finished
    cases hcoming : h.coming
    refine ⟨[], ?_, rfl⟩
    rw [← hbuf]
    rfl
  | cons data pieces ih =>
    rw [List.flatten_cons] at h
    obtain ⟨taken, left, outTaken, outLeft, cipher', buf', hdrain, rfl, rfl, -, -, hdecoding⟩ :=
      h.feed
    have hfeed := RecordDecoder.feed_eq hdrain
    obtain ⟨outputs, houtputs, hflat⟩ :=
      ih (show Decoding _ last _ (RecordDecoder.mk cipher' buf').cipher
      (RecordDecoder.mk cipher' buf').buf
      left outLeft from hdecoding)
    refine ⟨outTaken.flatten :: outputs, ?_, ?_⟩
    · simp only [RecordDecoder.feedEach, hfeed, houtputs]
    · rw [List.flatten_cons, hflat, List.flatten_append]

/-- All writes that are encoded under a key come out of a decoder with that key, whatever pieces
their bytes arrive in. No frame is too long, and no nonce is used twice. -/
theorem records_delivered (hopens : P.Opens) (key : Bytes 32) (writes : List (List UInt8))
    (hfew : (recordTexts writes).length < maxNonce) :
    ∃ records outputs last,
      (RecordCipher.new key).sealAll P (recordTexts writes) = some (records, last) ∧
      (RecordCipher.new key).encodeEach P writes = some (outputs, last) ∧
      outputs.flatten = (records.map Record.frame).flatten ∧
      (∀ record ∈ records, record.frame.length ≤ maxRecordFrameSize) ∧
      (records.map Record.nonce).Nodup ∧
      ∀ pieces : List (List UInt8), pieces.flatten = outputs.flatten →
        ∃ texts decoder, (RecordDecoder.new key).feedEach P pieces = (.ok texts, decoder) ∧
          texts.flatten = writes.flatten := by
  have htexts : ∀ text ∈ recordTexts writes, text.length ≤ maxRecordPlaintext :=
    fun text htext => (mem_record_texts htext).2
  have hstart : (new key).nonce + (recordTexts writes).length ≤ maxNonce := by
    rw [show (new key).nonce = 0 from rfl, Nat.zero_add]
    exact Nat.le_of_lt hfew
  obtain ⟨records, last, hsealed⟩ := seal_all_some (P := P) hstart
  obtain ⟨outputs, houtputs, hbytes⟩ := encode_each_seal_all hsealed
  refine ⟨records, outputs, last, hsealed, houtputs, hbytes, length_frame_seal_all htexts hsealed,
    nodup_nonces_seal_all hsealed, fun pieces hpieces => ?_⟩
  have hdecoding := (frames_seal_all hopens htexts hsealed).decoding
  rw [← hbytes, ← hpieces] at hdecoding
  obtain ⟨texts, hfed, hflat⟩ := feed_each_decoding (show Decoding _ last _
    (RecordDecoder.new key).cipher (RecordDecoder.new key).buf _ _ from hdecoding)
  exact ⟨texts, _, hfed, hflat.trans (flatten_record_texts writes)⟩

theorem plain_primitives_opens : plainPrimitives.Opens := fun key nonce aad _ cleartext =>
  plain_primitives_lawful.decrypt_encrypt key nonce aad cleartext

/-- Two writes arrive byte by byte. -/
theorem records_delivered_bytewise :
    ∃ outputs last,
      (RecordCipher.new (keyOf 7)).encodeEach plainPrimitives [[1, 2], [3]] = some (outputs, last) ∧
      ∃ texts decoder, (RecordDecoder.new (keyOf 7)).feedEach plainPrimitives
          (outputs.flatten.map fun byte => [byte]) = (.ok texts, decoder) ∧
        texts.flatten = [1, 2, 3] := by
  obtain ⟨records, outputs, last, -, houtputs, -, -, -, hpieces⟩ :=
    records_delivered plain_primitives_opens (keyOf 7) [[1, 2], [3]] (by decide)
  refine ⟨outputs, last, houtputs, hpieces _ ?_⟩
  rw [← List.flatMap_def]
  exact List.flatMap_singleton' _

end Crabscale.Transport
