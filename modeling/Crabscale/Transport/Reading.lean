import Crabscale.Transport.Stream

/-!
# Reading from the encrypted stream

`Reading` relates what was read, decoded and handed over; each poll keeps it (`Reading.poll`), so
what is handed over is always a beginning of the text. But a poll whose inner read ends no record
hands over nothing and yet is ready, which to the caller means the end of the stream:
`reads_faithful_iff`.
-/

namespace Crabscale.Transport

open Rust Interaction Interaction.Framing

def dataOf : List InnerRead → List UInt8
  | [] => []
  | .data chunk :: reads => chunk.bytes ++ dataOf reads
  | .pending :: reads | .failed _ :: reads => dataOf reads

def NeverFails (reads : List InnerRead) : Prop := ∀ message, .failed message ∉ reads

/-- A stream that is read, with the answers of the inner stream that are left and the bytes that
were handed over. -/
structure ReadState where
  stream : NoiseStreamState
  reads : List InnerRead
  delivered : List UInt8 := []

namespace ReadState

def poll (P : Primitives) (s : ReadState) (size : Nat) :
    Poll (Except IoError Unit) × List UInt8 × ReadState :=
  let (answer, bytes, stream, reads) := s.stream.pollRead P s.reads size
  (answer, bytes, { stream, reads, delivered := s.delivered ++ bytes })

/-- Poll with buffers one after another. -/
def run (P : Primitives) (s : ReadState) (sizes : List Nat) : ReadState :=
  sizes.foldl (fun s size => (s.poll P size).2.2) s

def AtEnd (s : ReadState) : Prop := s.reads = [] ∧ s.stream.reader.buf = []

/-- A poll that is ready without a byte is one at the end of the inner stream. -/
def EmptyOnlyAtEnd (P : Primitives) (s : ReadState) (size : Nat) : Prop :=
  (s.poll P size).1 = .ready (.ok ()) → (s.poll P size).2.1 = [] → s.AtEnd

end ReadState

def EachEndsRecord (records : List Record) (reads : List InnerRead) : Prop :=
  ∀ before chunk after, reads = before ++ .data chunk :: after →
    EndsFrame (records.map Record.frame) (dataOf before).length chunk.bytes.length

/-- How far a stream is: some inner reads were made, whose records were decoded but for the
beginning of one, and the texts of those were handed over or are about to be. -/
structure Reading (P : Primitives) (last : RecordCipher) (before : List InnerRead)
    (done left doneTexts leftTexts : List (List UInt8)) (s : ReadState) : Prop where
  decoding : Decoding (RecordCipher.decodeOne P) last (dataOf s.reads) s.stream.reader.cipher
    s.stream.reader.buf left leftTexts
  read : done.flatten ++ s.stream.reader.buf = dataOf before
  delivered : s.delivered ++ s.stream.readBuf.drop s.stream.readPos = doneTexts.flatten
  texts : ∀ text ∈ leftTexts, text ≠ []

theorem data_of_append (reads more : List InnerRead) :
    dataOf (reads ++ more) = dataOf reads ++ dataOf more := by
  induction reads with
  | nil => rfl
  | cons read reads ih =>
    cases read with
    | pending => exact ih
    | failed _ => exact ih
    | data chunk =>
      rw [List.cons_append, dataOf, dataOf, ih, List.append_assoc]

variable {reads : List InnerRead}

section Poll

variable {P : Primitives} {last : RecordCipher} {before : List InnerRead}
  {done left doneTexts leftTexts : List (List UInt8)} {s : ReadState} {size : Nat}

theorem put_slice_append (stream : NoiseStreamState) (size : Nat) :
    (stream.putSlice size).1 ++ (stream.putSlice size).2.readBuf.drop
      (stream.putSlice size).2.readPos =
      stream.readBuf.drop stream.readPos := by
  unfold NoiseStreamState.putSlice
  dsimp only
  rw [← List.drop_drop]
  exact List.take_append_drop ..

theorem put_slice_eq_nil {stream : NoiseStreamState} (hsize : 0 < size)
    (h : (stream.putSlice size).1 = []) : stream.readBuf.drop stream.readPos = [] := by
  unfold NoiseStreamState.putSlice at h
  dsimp only at h
  have hlen := congrArg List.length h
  rw [List.length_take, List.length_drop, List.length_nil] at hlen
  refine List.drop_eq_nil_of_le ?_
  omega

theorem poll_decoded (h : s.stream.readPos < s.stream.readBuf.length) :
    s.poll P size = (.ready (.ok ()), (s.stream.putSlice size).1,
      { stream := (s.stream.putSlice size).2, reads := s.reads,
        delivered := s.delivered ++ (s.stream.putSlice size).1 }) := by
  unfold ReadState.poll NoiseStreamState.pollRead
  rw [if_pos h]

def cleared (stream : NoiseStreamState) : NoiseStreamState :=
  { stream with readBuf := [], readPos := 0 }

theorem poll_end (h : ¬s.stream.readPos < s.stream.readBuf.length) (hreads : s.reads = []) :
    s.poll P size = (.ready (.ok ()), [],
      { stream := cleared s.stream, reads := [], delivered := s.delivered ++ [] }) := by
  unfold ReadState.poll NoiseStreamState.pollRead
  rw [if_neg h, hreads]
  rfl

theorem poll_pending (h : ¬s.stream.readPos < s.stream.readBuf.length)
    (hreads : s.reads = .pending :: reads) :
    s.poll P size = (.pending, [],
      { stream := cleared s.stream, reads, delivered := s.delivered ++ [] }) := by
  unfold ReadState.poll NoiseStreamState.pollRead
  rw [if_neg h, hreads]
  rfl

theorem poll_data (size : Nat) {chunk : Chunk} {text : List UInt8}
    {reader : RecordDecoder} (h : ¬s.stream.readPos < s.stream.readBuf.length)
    (hreads : s.reads = .data chunk :: reads)
    (hfeed : s.stream.reader.feed P chunk.bytes = (.ok text, reader)) :
    let fed := { cleared s.stream with reader, readBuf := text }
    s.poll P size = (.ready (.ok ()), (fed.putSlice size).1,
      { stream := (fed.putSlice size).2, reads, delivered := s.delivered ++ (fed.putSlice
        size).1 }) := by
  intro fed
  unfold ReadState.poll NoiseStreamState.pollRead
  rw [if_neg h, hreads]
  dsimp only
  rw [hfeed]
  rfl

/-- All decoded bytes were handed over. -/
def Drained (s : ReadState) : Prop := s.stream.readBuf.length ≤ s.stream.readPos

/-- What becomes of a stream in one poll: bytes that were decoded before are handed over, the inner
stream is at its end or pending, or an inner read is decoded. -/
inductive Polled (P : Primitives) (last : RecordCipher) (before : List InnerRead)
    (done left doneTexts leftTexts : List (List UInt8)) (s : ReadState) (size : Nat) :
    Poll (Except IoError Unit) → List UInt8 → ReadState → Prop where
  | decoded {bytes : List UInt8} {s' : ReadState} : ¬Drained s → bytes ≠ [] →
      s'.reads = s.reads → Reading P last before done left doneTexts leftTexts s' →
      Polled P last before done left doneTexts leftTexts s size (.ready (.ok ())) bytes s'
  | ended {s' : ReadState} : s.AtEnd → s'.reads = s.reads →
      Reading P last before done left doneTexts leftTexts s' →
      Polled P last before done left doneTexts leftTexts s size (.ready (.ok ())) [] s'
  | pending {s' : ReadState} : s.reads = .pending :: s'.reads → Drained s' →
      Reading P last (before ++ [.pending]) done left doneTexts leftTexts s' →
      Polled P last before done left doneTexts leftTexts s size .pending [] s'
  | read {chunk : Chunk} {bytes : List UInt8} {s' : ReadState}
      {taken left' takenTexts leftTexts' : List (List UInt8)} :
      s.reads = .data chunk :: s'.reads → left = taken ++ left' →
      leftTexts = takenTexts ++ leftTexts' → (leftTexts.flatten.length ≤ size → Drained s') →
      (bytes = [] ↔ ¬EndsFrame (done ++ left) (dataOf before).length chunk.bytes.length) →
      Reading P last (before ++ [.data chunk]) (done ++ taken) left' (doneTexts ++ takenTexts)
        leftTexts' s' →
      Polled P last before done left doneTexts leftTexts s size (.ready (.ok ())) bytes s'

theorem Reading.cleared (h : Reading P last before done left doneTexts leftTexts s)
    (hdrained : Drained s) :
    Reading P last before done left doneTexts leftTexts
      { stream := cleared s.stream, reads := s.reads, delivered := s.delivered ++ [] } := by
  obtain ⟨hdecoding, hread, hdelivered, htexts⟩ := h
  refine ⟨hdecoding, hread, ?_, htexts⟩
  rw [List.drop_eq_nil_of_le hdrained] at hdelivered
  rw [List.append_nil]
  exact hdelivered

theorem Reading.poll_read (h : Reading P last before done left doneTexts leftTexts s)
    (hdrained : Drained s) {chunk : Chunk}
    (hreads : s.reads = .data chunk :: reads) (hsize : 0 < size) :
    ∃ bytes s', s.poll P size = (.ready (.ok ()), bytes, s') ∧
      Polled P last before done left doneTexts leftTexts s size (.ready (.ok ())) bytes s' := by
  obtain ⟨hdecoding, hread, hdelivered, htexts⟩ := h
  rw [hreads, dataOf] at hdecoding
  obtain ⟨taken, left', takenTexts, leftTexts', cipher, buf, hdrain, rfl, rfl, hlength, hbuf,
    hdecoding'⟩ := hdecoding.feed
  have hpoll := poll_data size (Nat.not_lt.mpr hdrained) hreads
    (RecordDecoder.feed_eq hdrain)
  dsimp only at hpoll
  generalize hfed : ({ Transport.cleared s.stream with
    reader := { cipher, buf }, readBuf := takenTexts.flatten } : NoiseStreamState) = fed at hpoll
  have hall := put_slice_append fed size
  have hends : taken ≠ [] ↔ EndsFrame (done ++ (taken ++ left')) (dataOf before).length
      chunk.bytes.length := by
    rw [← hread]
    exact (ends_frame_iff hdecoding.part hdecoding'.part hbuf).symm
  have hnothing : takenTexts.flatten = [] ↔ taken = [] := by
    rw [List.flatten_eq_nil_iff, ← List.length_eq_zero_iff (l := taken), hlength,
      List.length_eq_zero_iff]
    constructor
    · intro hall
      refine List.eq_nil_iff_forall_not_mem.mpr fun text htext => ?_
      exact htexts text (List.mem_append_left _ htext) (hall text htext)
    · rintro rfl
      exact List.forall_mem_nil _
  have hfedBuf : fed.readBuf.drop fed.readPos = takenTexts.flatten := by
    rw [← hfed]
    rfl
  refine ⟨_, _, hpoll, .read hreads rfl rfl (fun hroom => ?_) ?_ ⟨?_, ?_, ?_, ?_⟩⟩
  · rw [List.flatten_append, List.length_append] at hroom
    subst hfed
    show takenTexts.flatten.length ≤ 0 + min (takenTexts.flatten.length - 0) size
    omega
  · rw [← hends, not_not, ← hnothing, ← hfedBuf]
    refine ⟨put_slice_eq_nil hsize, fun hnil => ?_⟩
    rw [hnil] at hall
    exact (List.append_eq_nil_iff.mp hall).1
  · subst hfed
    exact hdecoding'
  · subst hfed
    rw [data_of_append, ← hread, List.flatten_append, List.append_assoc, List.append_assoc]
    show done.flatten ++ (taken.flatten ++ buf) = _
    rw [← hbuf, dataOf, dataOf, List.append_nil]
  · rw [List.drop_eq_nil_of_le hdrained, List.append_nil] at hdelivered
    rw [List.append_assoc, hall, hfedBuf, hdelivered, List.flatten_append]
  · exact fun text htext => htexts text (List.mem_append_right _ htext)

theorem Reading.poll (h : Reading P last before done left doneTexts leftTexts s)
    (hnever : NeverFails s.reads) (hsize : 0 < size) :
    ∃ answer bytes s', s.poll P size = (answer, bytes, s') ∧
      Polled P last before done left doneTexts leftTexts s size answer bytes s' := by
  by_cases hdrained : Drained s
  · cases hreads : s.reads with
    | nil =>
      refine ⟨_, _, _, poll_end (Nat.not_lt.mpr hdrained) hreads,
        .ended ⟨hreads, ?_⟩ hreads.symm ?_⟩
      · have hdecoding := h.decoding
        rw [hreads] at hdecoding
        exact hdecoding.finished.1
      · have hcleared := h.cleared hdrained
        rw [hreads] at hcleared
        exact hcleared
    | cons read reads =>
      cases read with
      | pending =>
        refine ⟨_, _, _, poll_pending (Nat.not_lt.mpr hdrained) hreads,
          .pending hreads (Nat.le_refl 0) ?_⟩
        obtain ⟨hdecoding, hread, hdelivered, htexts⟩ := h.cleared hdrained
        rw [hreads] at hdecoding
        have hsame : dataOf (before ++ [.pending]) = dataOf before :=
          (data_of_append ..).trans (List.append_nil _)
        exact ⟨hdecoding, hread.trans hsame.symm, hdelivered, htexts⟩
      | failed message =>
        rw [hreads] at hnever
        exact absurd List.mem_cons_self (hnever message)
      | data chunk => exact ⟨_, h.poll_read hdrained hreads hsize⟩
  · have hdecoded := Nat.not_le.mp hdrained
    refine ⟨_, _, _, poll_decoded hdecoded, .decoded hdrained ?_ rfl ?_⟩
    · intro hnil
      exact hdrained (List.drop_eq_nil_iff.mp (put_slice_eq_nil hsize hnil))
    · obtain ⟨hdecoding, hread, hdelivered, htexts⟩ := h
      refine ⟨hdecoding, hread, ?_, htexts⟩
      rw [List.append_assoc, put_slice_append]
      exact hdelivered

end Poll

/-! ## Runs -/

section Runs

variable {P : Primitives} {last : RecordCipher} {before : List InnerRead}
  {done left doneTexts leftTexts : List (List UInt8)} {s : ReadState}

theorem NeverFails.append_right {more : List InnerRead} (h : NeverFails (reads ++ more)) :
    NeverFails more :=
  fun message hmem => h message (List.mem_append_right _ hmem)

theorem NeverFails.tail {read : InnerRead} (h : NeverFails (read :: reads)) : NeverFails reads :=
  fun message hmem => h message (List.mem_cons_of_mem _ hmem)

def Underway (P : Primitives) (last : RecordCipher) (reads : List InnerRead)
    (frames texts : List (List UInt8)) (s : ReadState) : Prop :=
  ∃ before done left doneTexts leftTexts, reads = before ++ s.reads ∧ frames = done ++ left ∧
    texts = doneTexts ++ leftTexts ∧ Reading P last before done left doneTexts leftTexts s

variable {reads : List InnerRead} {frames texts : List (List UInt8)}

theorem Underway.poll (h : Underway P last reads frames texts s) (hnever : NeverFails reads)
    {size : Nat} (hsize : 0 < size) : Underway P last reads frames texts (s.poll P size).2.2 := by
  obtain ⟨before, done, left, doneTexts, leftTexts, rfl, rfl, rfl, hreading⟩ := h
  obtain ⟨answer, bytes, s', hpoll, hpolled⟩ := hreading.poll hnever.append_right hsize
  rw [hpoll]
  cases hpolled with
  | decoded _ _ hreads hreading' | ended _ hreads hreading' =>
    exact ⟨before, done, left, doneTexts, leftTexts, by rw [hreads], rfl, rfl, hreading'⟩
  | pending hreads _ hreading' =>
    exact ⟨_, done, left, doneTexts, leftTexts, by rw [hreads, List.append_assoc]; rfl, rfl, rfl,
      hreading'⟩
  | read hreads hleft htexts _ _ hreading' =>
    subst hleft htexts
    exact ⟨_, _, _, _, _, by rw [hreads, List.append_assoc]; rfl, (List.append_assoc ..).symm,
      (List.append_assoc ..).symm, hreading'⟩

theorem Underway.run (h : Underway P last reads frames texts s) (hnever : NeverFails reads)
    {sizes : List Nat} (hsizes : ∀ size ∈ sizes, 0 < size) :
    Underway P last reads frames texts (s.run P sizes) := by
  induction sizes generalizing s with
  | nil => exact h
  | cons size sizes ih =>
    obtain ⟨hsize, hsizes⟩ := List.forall_mem_cons.mp hsizes
    exact ih (h.poll hnever hsize) hsizes

/-- With buffers that have room for everything, each poll takes one answer of the inner stream. -/
theorem Reading.run_drained (h : Reading P last before done left doneTexts leftTexts s)
    (hdrained : Drained s) {front rest : List InnerRead} (hreads : s.reads = front ++ rest)
    (hnever : NeverFails s.reads) {size : Nat} (hsize : 0 < size)
    (hroom : leftTexts.flatten.length ≤ size) :
    ∃ s' done' left' doneTexts' leftTexts', s.run P (List.replicate front.length size) = s' ∧
      Drained s' ∧ s'.reads = rest ∧ done' ++ left' = done ++ left ∧
      Reading P last (before ++ front) done' left' doneTexts' leftTexts' s' := by
  induction front generalizing s before done left doneTexts leftTexts with
  | nil =>
    rw [List.append_nil]
    exact ⟨s, done, left, doneTexts, leftTexts, rfl, hdrained, hreads, rfl, h⟩
  | cons read front ih =>
    obtain ⟨answer, bytes, s', hpoll, hpolled⟩ := h.poll hnever hsize
    have hrun : s.run P (List.replicate (front.length + 1) size) =
        s'.run P (List.replicate front.length size) := by
      rw [List.replicate_succ, ReadState.run, List.foldl_cons, hpoll]
      rfl
    rw [List.length_cons, hrun, List.append_cons]
    cases hpolled with
    | decoded hnot _ _ _ => exact absurd hdrained hnot
    | ended hend _ _ =>
      rw [hend.1] at hreads
      cases hreads
    | pending hnext hdrained' hreading' =>
      rw [hnext] at hnever
      obtain ⟨rfl, hrest⟩ := List.cons.inj (hreads.symm.trans hnext)
      exact ih hreading' hdrained' hrest.symm hnever.tail hroom
    | read hnext hleft htexts hdrained' _ hreading' =>
      rw [hnext] at hnever
      obtain ⟨rfl, hrest⟩ := List.cons.inj (hreads.symm.trans hnext)
      subst hleft htexts
      have hdrained' := hdrained' hroom
      rw [List.flatten_append, List.length_append] at hroom
      rw [← List.append_assoc]
      exact ih hreading' hdrained' hrest.symm hnever.tail
        (by omega)

theorem reading_start (hopens : P.Opens) (stream : NoiseStream) {writes : List (List UInt8)}
    {records : List Record}
    (hsealed : (RecordCipher.new stream.readKey).sealAll P (recordTexts writes) = some
    (records, last))
    (hdata : dataOf reads = (records.map Record.frame).flatten) :
    Reading P last [] [] (records.map Record.frame) [] (recordTexts writes)
      { stream := stream.start, reads } := by
  have hframes := frames_seal_all hopens (fun text htext => (mem_record_texts htext).2) hsealed
  refine ⟨?_, rfl, rfl, fun text htext => (mem_record_texts htext).1⟩
  rw [hdata]
  exact hframes.decoding

/-- Reads from a new stream whose inner stream yields records in any pieces: what is handed over is
always a beginning of the text, and nothing is handed over by a poll that is ready only at the end
of the stream, if and only if each inner read ends a record. -/
theorem reads_faithful_iff (hopens : P.Opens) (stream : NoiseStream) (writes : List (List UInt8))
    (records : List Record) (last : RecordCipher)
    (hsealed : (RecordCipher.new stream.readKey).sealAll P (recordTexts writes) = some
    (records, last))
    (reads : List InnerRead) (hnever : NeverFails reads)
    (hdata : dataOf reads = (records.map Record.frame).flatten) :
    (∀ sizes, (∀ size ∈ sizes, 0 < size) →
      (ReadState.run P { stream := stream.start, reads } sizes).delivered <+: writes.flatten) ∧
    ((∀ sizes size, (∀ size ∈ sizes, 0 < size) → 0 < size →
      (ReadState.run P { stream := stream.start, reads } sizes).EmptyOnlyAtEnd P size) ↔
      EachEndsRecord records reads) := by
  have hstart := reading_start hopens stream hsealed hdata
  have hunderway : Underway P last reads (records.map Record.frame) (recordTexts writes)
      { stream := stream.start, reads } := ⟨[], [], _, [], _, rfl, rfl, rfl, hstart⟩
  refine ⟨fun sizes hsizes => ?_, fun hempty before chunk after hreads => ?_,
    fun hends sizes size hsizes hsize hready hnil => ?_⟩
  · obtain ⟨before, done, left, doneTexts, leftTexts, -, -, htexts, hreading⟩ :=
      hunderway.run hnever hsizes
    refine List.IsPrefix.trans ⟨_, hreading.delivered⟩ ⟨leftTexts.flatten, ?_⟩
    rw [← List.flatten_append, ← htexts, flatten_record_texts]
  · -- Large buffers take the stream to the read in question.
    by_contra hnot
    obtain ⟨s', done, left, doneTexts, leftTexts, hrun, hdrained, hrest, hframes, hreading⟩ :=
      hstart.run_drained (Nat.le_refl 0) hreads hnever
        (Nat.succ_pos (recordTexts writes).flatten.length) (Nat.le_succ _)
    obtain ⟨bytes, s'', hpoll, hpolled⟩ :=
      hreading.poll_read hdrained hrest (Nat.succ_pos (recordTexts writes).flatten.length)
    have hatEnd := hempty
      (List.replicate before.length (recordTexts writes).flatten.length.succ) _
      (fun size hsize => by rw [List.eq_of_mem_replicate hsize]; exact Nat.succ_pos _)
      (Nat.succ_pos (recordTexts writes).flatten.length)
    rw [hrun, ReadState.EmptyOnlyAtEnd, hpoll] at hatEnd
    have hnone (h : s'.AtEnd) : False := List.cons_ne_nil _ _ (hrest.symm.trans h.1)
    rw [List.nil_append] at hframes hpolled
    cases hpolled with
    | decoded hdecoded _ _ _ => exact hdecoded hdrained
    | ended hend _ _ => exact hnone hend
    | read hnext _ _ _ hbytes _ =>
      obtain ⟨heq, -⟩ := List.cons.inj (hrest.symm.trans hnext)
      cases heq
      rw [hframes] at hbytes
      exact hnone (hatEnd rfl (hbytes.mpr hnot))
  · obtain ⟨before, done, left, doneTexts, leftTexts, hreads, hframes, -, hreading⟩ :=
      hunderway.run hnever hsizes
    rw [hreads] at hnever
    obtain ⟨answer, bytes, s', hpoll, hpolled⟩ := hreading.poll hnever.append_right hsize
    rw [hpoll] at hready hnil
    cases hpolled with
    | decoded _ hbytes _ _ => exact absurd hnil hbytes
    | ended hend _ _ => exact hend
    | pending _ _ _ => cases hready
    | read hnext _ _ _ hbytes _ =>
      rw [hnext] at hreads
      have hend := hends before _ _ hreads
      rw [hframes] at hend
      exact absurd hend (hbytes.mp hnil)

end Runs

/-! ### A record in one read and in two -/

def oneRecord : Record := RecordCipher.sealChunk plainPrimitives (keyOf 7)
    (RecordCipher.nonceBytes 0) [1]

def wholeFrame : Chunk := ⟨oneRecord.frame, by decide +kernel, by decide +kernel⟩

/-- The whole record is read at once, after a pending read. -/
theorem reads_faithful_whole :
    EachEndsRecord [oneRecord] [.pending, .data wholeFrame] ∧
    ∀ sizes size, (∀ size ∈ sizes, 0 < size) → 0 < size →
      (ReadState.run plainPrimitives
        { stream := sevenEight.start, reads := [.pending, .data wholeFrame] }
        sizes).EmptyOnlyAtEnd plainPrimitives size := by
  have hends : EachEndsRecord [oneRecord] [.pending, .data wholeFrame] := by
    intro before chunk after hreads
    obtain _ | ⟨first, _ | ⟨second, before⟩⟩ := before
    · cases hreads
    · cases hreads
      exact ⟨[oneRecord.frame], List.prefix_refl _, by decide +kernel, by decide +kernel⟩
    · simp at hreads
  have hnever : NeverFails [.pending, .data wholeFrame] := by
    intro message hmem
    simp at hmem
  exact ⟨hends, (reads_faithful_iff plain_primitives_opens sevenEight [[1]] [oneRecord] _ rfl
    [.pending, .data wholeFrame] hnever (by decide +kernel)).2.mpr hends⟩

def firstHalf : Chunk := ⟨oneRecord.frame.take 10, by decide +kernel, by decide +kernel⟩

def secondHalf : Chunk := ⟨oneRecord.frame.drop 10, by decide +kernel, by decide +kernel⟩

def halves : ReadState :=
  { stream := sevenEight.start, reads := [.data firstHalf, .data secondHalf] }

/-- The first poll is ready without a byte although the inner stream is not at its end. -/
theorem read_looks_ended :
    dataOf halves.reads = oneRecord.frame ∧ (halves.poll plainPrimitives 1).1 = .ready (.ok ()) ∧
      (halves.poll plainPrimitives 1).2.1 = [] ∧ ¬halves.AtEnd := by
  refine ⟨by decide +kernel, by decide +kernel, by decide +kernel, fun hend => ?_⟩
  cases hend.1

end Crabscale.Transport
