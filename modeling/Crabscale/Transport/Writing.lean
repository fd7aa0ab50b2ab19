import Crabscale.Transport.Stream

/-!
# Writing to the encrypted stream

A write that the inner stream does not take at once is acknowledged by the call that completes it.
`Writing` relates the writes to the records accepted and to those that are left; each call keeps it
as long as a write under way is completed only by a call that repeats it (`Writing.step`). By
`writes_faithful_iff` nothing else is right: a flush that completes a write swallows its
acknowledgement, and another write takes it for its own.
-/

namespace Crabscale.Transport

open Rust Interaction Interaction.Framing NoiseStreamState

inductive WriteCall where
  | write (answers : List InnerWrite) (buf : List UInt8)
  | flush (answers : List InnerWrite) (inner : Poll (Except IoError Unit))
  | shutdown (answers : List InnerWrite) (inner : Poll (Except IoError Unit))

namespace WriteCall

def answers : WriteCall → List InnerWrite
  | write answers _ | flush answers _ | shutdown answers _ => answers

def Repeats (held : List UInt8) : WriteCall → Prop
  | write _ buf => held <+: buf
  | flush .. | shutdown .. => False

end WriteCall

def acknowledgedOf (buf : List UInt8) : Poll (Except IoError Nat) → List UInt8
  | .ready (.ok n) => buf.take n
  | .ready (.error _) | .pending => []

/-- A stream that is written to, with the bytes that the inner stream accepted, those that were
acknowledged, and the buffer of the write that is under way. -/
structure WriteState where
  stream : NoiseStreamState
  accepted : List UInt8 := []
  acknowledged : List UInt8 := []
  held : List UInt8 := []

namespace WriteState

def step (P : Primitives) (s : WriteState) : WriteCall → WriteState
  | .write answers buf =>
    let (answer, bytes, stream) := s.stream.pollWrite P answers buf
    { stream
      accepted := s.accepted ++ bytes
      acknowledged := s.acknowledged ++ acknowledgedOf buf answer
      held :=
        if stream.writeAcked = 0 then []
        else if s.stream.writeAcked = 0 then buf
        else s.held }
  | .flush answers inner =>
    let (_, bytes, stream) := s.stream.pollFlush answers inner
    { s with
      stream
      accepted := s.accepted ++ bytes
      held := if stream.writeAcked = 0 then [] else s.held }
  | .shutdown answers inner =>
    let (_, bytes, stream) := s.stream.pollShutdown answers inner
    { s with
      stream
      accepted := s.accepted ++ bytes
      held := if stream.writeAcked = 0 then [] else s.held }

def Along (P : Primitives) (p : WriteState → WriteCall → Prop) : WriteState → List WriteCall → Prop
  | _, [] => True
  | s, call :: calls => p s call ∧ Along P p (s.step P call) calls

/-- What the peer decodes from all bytes that the inner stream accepted is what was acknowledged. -/
def Decoded (P : Primitives) (key : Bytes 32) (s : WriteState) : Prop :=
  ∀ pieces : List (List UInt8), pieces.flatten = s.accepted →
    ∃ outputs decoder, (RecordDecoder.new key).feedEach P pieces = (.ok outputs, decoder) ∧
      outputs.flatten = s.acknowledged

/-- A write acknowledges no more than its buffer, and after a flush the peer has what was
acknowledged. -/
def Faithful (P : Primitives) (key : Bytes 32) (s : WriteState) : WriteCall → Prop
  | .write answers buf => ∀ n, (s.stream.pollWrite P answers buf).1 = .ready (.ok n) →
    n ≤ buf.length
  | .flush answers inner => (s.stream.pollFlush answers inner).1 = .ready (.ok ()) →
      (s.step P (.flush answers inner)).Decoded P key
  | .shutdown .. => True

def Retries (s : WriteState) (call : WriteCall) : Prop :=
  0 < s.stream.writeAcked →
    (NoiseStreamState.flushPending call.answers s.stream).1 = .ready (.ok ()) → call.Repeats s.held

end WriteState

/-! ## Flushing -/

def NoiseStreamState.left (stream : NoiseStreamState) : List UInt8 :=
  stream.writeBuf.drop stream.writePos

theorem NoiseStreamState.left_eq_nil {stream : NoiseStreamState} :
    stream.left = [] ↔ ¬stream.writePos < stream.writeBuf.length := by
  rw [left, List.drop_eq_nil_iff, Nat.not_lt]

structure Flushed (stream : NoiseStreamState) (answer : Poll (Except IoError Unit))
    (bytes : List UInt8) (stream' : NoiseStreamState) : Prop where
  bytes : bytes ++ stream'.left = stream.left
  done : stream'.left = [] ↔ answer = .ready (.ok ())
  writer : stream'.writer = stream.writer
  acked : stream'.writeAcked = stream.writeAcked

theorem Flushed.stop {stream : NoiseStreamState} {answer : Poll (Except IoError Unit)}
    (h : stream.writePos < stream.writeBuf.length) (hanswer : answer ≠ .ready (.ok ())) :
    Flushed stream answer [] stream :=
  ⟨rfl, iff_of_false (fun hleft => left_eq_nil.mp hleft h) hanswer, rfl, rfl⟩

/-- A write of nothing is completed at once. -/
theorem Flushed.unfinished {stream stream' : NoiseStreamState} {answer : Poll (Except IoError Unit)}
    {bytes : List UInt8} (h : Flushed stream answer bytes stream')
    (hanswer : answer ≠ .ready (.ok ())) (hleft : stream.writeAcked = 0 → stream.left = []) :
    stream'.left ≠ [] ∧ stream'.writeAcked ≠ 0 := by
  have hsome : stream'.left ≠ [] := fun hnil => hanswer (h.done.mp hnil)
  refine ⟨hsome, fun hzero => ?_⟩
  have hnil := h.bytes
  rw [hleft (h.acked.symm.trans hzero)] at hnil
  exact hsome (List.append_eq_nil_iff.mp hnil).2

theorem flush_pending_none {answers : List InnerWrite} {stream : NoiseStreamState}
    (h : ¬stream.writePos < stream.writeBuf.length) : flushPending answers stream =
      (.ready (.ok ()), [], { stream with writeBuf := [], writePos := 0 }) := by
  rw [flushPending.eq_def, if_neg h]

theorem flushed_flush_pending (answers : List InnerWrite) (stream : NoiseStreamState) :
    Flushed stream (flushPending answers stream).1 (flushPending answers stream).2.1
      (flushPending answers stream).2.2 := by
  induction answers generalizing stream with
  | nil =>
    by_cases h : stream.writePos < stream.writeBuf.length
    · rw [flushPending.eq_def, if_pos h]
      exact .stop h (by simp)
    · rw [flush_pending_none h]
      exact ⟨(left_eq_nil.mpr h).symm, iff_of_true rfl rfl, rfl, rfl⟩
  | cons answer answers ih =>
    by_cases h : stream.writePos < stream.writeBuf.length
    · rw [flushPending.eq_def, if_pos h]
      cases answer with
      | pending => exact .stop h (by simp)
      | failed message => exact .stop h (by simp)
      | accepted n =>
        cases n with
        | zero => exact .stop h (by simp)
        | succ n =>
          obtain ⟨hbytes, hdone, hwriter, hacked⟩ := ih { stream with
            writePos := stream.writePos +
              min (n + 1) (stream.writeBuf.drop stream.writePos).length }
          refine ⟨?_, hdone, hwriter, hacked⟩
          dsimp only
          rw [List.append_assoc, hbytes, left, ← List.drop_drop]
          exact List.take_append_drop ..
    · rw [flush_pending_none h]
      exact ⟨(left_eq_nil.mpr h).symm, iff_of_true rfl rfl, rfl, rfl⟩

theorem flush_pending_spec (answers : List InnerWrite) (stream : NoiseStreamState) :
    ∃ answer bytes stream', flushPending answers stream = (answer, bytes, stream') ∧
      Flushed stream answer bytes stream' :=
  ⟨_, _, _, rfl, flushed_flush_pending answers stream⟩

section Calls

variable {P : Primitives} {key : Bytes 32} {s : WriteState} {call : WriteCall}
  {stream stream' : NoiseStreamState} {answers : List InnerWrite} {bytes buf : List UInt8}
  {answer : Poll (Except IoError Unit)}

theorem finish_write_done (h : flushPending answers stream = (.ready (.ok ()), bytes, stream')) :
    stream.finishWrite answers =
      (.ready (.ok stream'.writeAcked), bytes, { stream' with writeAcked := 0 }) := by
  rw [finishWrite, h]

theorem finish_write_stop (h : flushPending answers stream = (answer, bytes, stream'))
    (hanswer : answer ≠ .ready (.ok ())) :
    ∃ answer' : Poll (Except IoError Nat), stream.finishWrite answers = (answer', bytes, stream') ∧
      ∀ n, answer' ≠ .ready (.ok n) := by
  rw [finishWrite, h]
  cases answer with
  | pending => exact ⟨.pending, rfl, by simp⟩
  | ready result =>
    cases result with
    | ok value => exact absurd rfl hanswer
    | error error => exact ⟨.ready (.error error), rfl, by simp⟩

theorem finish_write_ready {n : Nat} (h : (stream.finishWrite answers).1 = .ready (.ok n)) :
    (flushPending answers stream).1 = .ready (.ok ()) ∧ n = stream.writeAcked := by
  obtain ⟨answer, bytes, stream', hflush, hflushed⟩ := flush_pending_spec answers stream
  rw [hflush]
  by_cases hanswer : answer = .ready (.ok ())
  · subst hanswer
    rw [finish_write_done hflush] at h
    cases h
    exact ⟨rfl, hflushed.acked⟩
  · obtain ⟨answer', hfinish, hnever⟩ := finish_write_stop hflush hanswer
    rw [hfinish] at h
    exact absurd h (hnever n)

variable {inner : Poll (Except IoError Unit)}

theorem flush_then_done (h : flushPending answers stream = (.ready (.ok ()), bytes, stream')) :
    stream.flushThen answers inner = (inner, bytes, { stream' with writeAcked := 0 }) := by
  rw [flushThen, h]

theorem flush_then_stop (h : flushPending answers stream = (answer, bytes, stream'))
    (hanswer : answer ≠ .ready (.ok ())) :
    stream.flushThen answers inner = (answer, bytes, stream') := by
  rw [flushThen, h]
  cases answer with
  | pending => rfl
  | ready result =>
    cases result with
    | ok value => exact absurd rfl hanswer
    | error error => rfl

theorem flush_then_ready (h : (stream.flushThen answers inner).1 = .ready (.ok ())) :
    (flushPending answers stream).1 = .ready (.ok ()) := by
  by_contra hanswer
  rw [flush_then_stop rfl hanswer] at h
  exact hanswer h

theorem write_acked_flush_then (h : (flushPending answers stream).1 = .ready (.ok ())) :
    (stream.flushThen answers inner).2.2.writeAcked = 0 := by
  obtain ⟨answer, bytes, stream', hflush, -⟩ := flush_pending_spec answers stream
  rw [hflush] at h
  subst h
  rw [flush_then_done hflush]

theorem acknowledged_of_eq_nil {answer : Poll (Except IoError Nat)}
    (h : ∀ n, answer ≠ .ready (.ok n)) : acknowledgedOf buf answer = [] := by
  cases answer with
  | pending => rfl
  | ready result =>
    cases result with
    | ok n => exact absurd rfl (h n)
    | error error => rfl

/-! ## What is on the way -/

/-- The texts of some records were encoded: the inner stream has accepted their bytes but for those
that are left. -/
structure Carries (P : Primitives) (key : Bytes 32) (stream : NoiseStreamState)
    (accepted plain : List UInt8) (texts : List (List UInt8)) (records : List Record) : Prop where
  sealed : (RecordCipher.new key).sealAll P texts = some (records, stream.writer)
  short : ∀ text ∈ texts, text.length ≤ maxRecordPlaintext
  bytes : accepted ++ stream.left = (records.map Record.frame).flatten
  plain : texts.flatten = plain

variable {accepted plain : List UInt8} {texts : List (List UInt8)} {records : List Record}

theorem Carries.acknowledge (h : Carries P key stream accepted plain texts records) (acked : Nat) :
    Carries P key { stream with writeAcked := acked } accepted plain texts records :=
  ⟨h.sealed, h.short, h.bytes, h.plain⟩

theorem Carries.flush (h : Carries P key stream accepted plain texts records)
    (hflushed : Flushed stream answer bytes stream') :
    Carries P key stream' (accepted ++ bytes) plain texts records := by
  refine ⟨?_, h.short, ?_, h.plain⟩
  · rw [hflushed.writer]
    exact h.sealed
  · rw [List.append_assoc, hflushed.bytes]
    exact h.bytes

theorem Carries.encode (h : Carries P key stream accepted plain texts records)
    (hleft : stream.left = []) {framed : List UInt8} {writer : RecordCipher}
    (hencode : stream.writer.encode P buf = some (framed, writer)) (acked : Nat) :
    ∃ texts' records', Carries P key
      { stream with writer, writeBuf := framed, writePos := 0, writeAcked := acked }
      accepted (plain ++ buf) texts' records' := by
  unfold RecordCipher.encode at hencode
  split at hencode
  case h_1 => cases hencode
  case h_2 more last hmore =>
    cases hencode
    refine ⟨texts ++ chunks maxRecordPlaintext buf, records ++ more, ?_, ?_, ?_, ?_⟩
    · exact seal_all_append h.sealed hmore
    · intro text htext
      obtain htext | htext := List.mem_append.mp htext
      · exact h.short text htext
      · exact (mem_chunks (by decide) htext).2
    · have hbytes := h.bytes
      rw [hleft, List.append_nil] at hbytes
      rw [List.map_append, List.flatten_append, ← hbytes]
      rfl
    · rw [List.flatten_append, flatten_chunks (by decide), h.plain]

theorem Carries.decoded (hopens : P.Opens) (h : Carries P key stream accepted plain texts records)
    (hleft : stream.left = []) {pieces : List (List UInt8)} (hpieces : pieces.flatten = accepted) :
    ∃ outputs decoder, (RecordDecoder.new key).feedEach P pieces = (.ok outputs, decoder) ∧
      outputs.flatten = plain := by
  have hdecoding := (frames_seal_all hopens h.short h.sealed).decoding
  rw [← h.bytes, hleft, List.append_nil, ← hpieces] at hdecoding
  obtain ⟨outputs, hfed, hflat⟩ := feed_each_decoding (show Decoding _ stream.writer _
    (RecordDecoder.new key).cipher (RecordDecoder.new key).buf _ _ from hdecoding)
  exact ⟨outputs, _, hfed, hflat.trans h.plain⟩

/-- Between calls the write under way is what is left, and all else was acknowledged. -/
structure Writing (P : Primitives) (key : Bytes 32) (s : WriteState) : Prop where
  carries : ∃ texts records,
    Carries P key s.stream s.accepted (s.acknowledged ++ s.held) texts records
  held : s.held.length = s.stream.writeAcked
  left : s.stream.left = [] ↔ s.stream.writeAcked = 0

theorem writing_start (stream : NoiseStream) :
    Writing P stream.writeKey { stream := stream.start } :=
  ⟨⟨[], [], rfl, List.forall_mem_nil _, rfl, rfl⟩, rfl, iff_of_true rfl rfl⟩

theorem Writing.held_eq_nil (h : Writing P key s) (hacked : s.stream.writeAcked = 0) :
    s.held = [] := by
  rw [← h.held] at hacked
  exact List.eq_nil_of_length_eq_zero hacked

/-! ## One call -/

def afterWrite (s : WriteState) (stream : NoiseStreamState) (answers : List InnerWrite)
    (buf held : List UInt8) : WriteState :=
  let result := stream.finishWrite answers
  { stream := result.2.2
    accepted := s.accepted ++ result.2.1
    acknowledged := s.acknowledged ++ acknowledgedOf buf result.1
    held := if result.2.2.writeAcked = 0 then [] else held }

theorem writing_after_write {held : List UInt8}
    (hcarries : Carries P key stream s.accepted (s.acknowledged ++ held) texts records)
    (hheld : held.length = stream.writeAcked) (hleft : stream.writeAcked = 0 → stream.left = [])
    (hrepeats : (flushPending answers stream).1 = .ready (.ok ()) → held <+: buf) :
    Writing P key (afterWrite s stream answers buf held) := by
  obtain ⟨answer, bytes, stream', hflush, hflushed⟩ := flush_pending_spec answers stream
  rw [hflush] at hrepeats
  have hcarries' := hcarries.flush hflushed
  by_cases hanswer : answer = .ready (.ok ())
  · subst hanswer
    have hnone := hflushed.done.mpr rfl
    rw [afterWrite, finish_write_done hflush]
    refine ⟨⟨texts, records, ?_⟩, rfl, iff_of_true hnone rfl⟩
    obtain ⟨rest, rfl⟩ := hrepeats rfl
    have htake : acknowledgedOf (held ++ rest) (.ready (.ok stream'.writeAcked)) = held := by
      rw [hflushed.acked, ← hheld]
      exact List.take_left
    dsimp only
    rw [htake, if_pos rfl, List.append_nil]
    exact hcarries'.acknowledge 0
  · obtain ⟨answer', hfinish, hnever⟩ := finish_write_stop hflush hanswer
    obtain ⟨hsome, hacked⟩ := hflushed.unfinished hanswer hleft
    rw [afterWrite, hfinish]
    dsimp only
    rw [acknowledged_of_eq_nil hnever, List.append_nil, if_neg hacked]
    exact ⟨⟨texts, records, hcarries'⟩, hheld.trans hflushed.acked.symm, iff_of_false hsome hacked⟩

theorem step_write_under_way (hacked : 0 < s.stream.writeAcked) :
    s.step P (.write answers buf) = afterWrite s s.stream answers buf s.held := by
  rw [WriteState.step, pollWrite, if_pos hacked, afterWrite,
    if_neg (Nat.ne_of_gt hacked)]

theorem step_write_new (hacked : s.stream.writeAcked = 0) {framed : List UInt8}
    {writer : RecordCipher} (hencode : s.stream.writer.encode P buf = some (framed, writer)) :
    s.step P (.write answers buf) = afterWrite s
      { s.stream with writer, writeBuf := framed, writePos := 0, writeAcked := buf.length }
      answers buf buf := by
  rw [WriteState.step, pollWrite, hacked, if_neg (Nat.lt_irrefl 0), hencode,
    afterWrite, if_pos rfl]

theorem Writing.step_write (h : Writing P key s) (hretries : s.Retries (.write answers buf)) :
    Writing P key (s.step P (.write answers buf)) := by
  obtain ⟨texts, records, hcarries⟩ := h.carries
  by_cases hacked : 0 < s.stream.writeAcked
  · rw [step_write_under_way hacked]
    refine writing_after_write hcarries h.held (fun hzero => ?_) (hretries hacked)
    exact absurd hzero (Nat.ne_of_gt hacked)
  · have hzero := Nat.eq_zero_of_not_pos hacked
    have hheld := h.held_eq_nil hzero
    rw [hheld, List.append_nil] at hcarries
    cases hencode : s.stream.writer.encode P buf with
    | none =>
      rw [WriteState.step, pollWrite, if_neg hacked, hencode]
      dsimp only
      rw [List.append_nil, hzero, if_pos rfl, acknowledgedOf, List.append_nil]
      refine ⟨⟨texts, records, ?_⟩, hzero.symm, h.left⟩
      rw [List.append_nil]
      exact hcarries
    | some result =>
      obtain ⟨framed, writer⟩ := result
      rw [step_write_new hzero hencode]
      obtain ⟨texts', records', hcarries'⟩ :=
        hcarries.encode (h.left.mpr hzero) hencode buf.length
      refine writing_after_write hcarries' rfl (fun hnil => ?_) (fun _ => List.prefix_refl buf)
      -- Nothing is encoded of no bytes.
      rw [List.eq_nil_of_length_eq_zero hnil] at hencode
      cases hencode
      rfl

def afterFlush (s : WriteState) (answers : List InnerWrite) (inner : Poll (Except IoError Unit)) :
    WriteState :=
  let result := s.stream.flushThen answers inner
  { s with
    stream := result.2.2
    accepted := s.accepted ++ result.2.1
    held := if result.2.2.writeAcked = 0 then [] else s.held }

theorem Writing.after_flush (h : Writing P key s) (hretries : 0 < s.stream.writeAcked →
      (flushPending answers s.stream).1 ≠ .ready (.ok ())) :
    Writing P key (afterFlush s answers inner) := by
  obtain ⟨texts, records, hcarries⟩ := h.carries
  obtain ⟨answer, bytes, stream', hflush, hflushed⟩ := flush_pending_spec answers s.stream
  rw [hflush] at hretries
  have hcarries' := hcarries.flush hflushed
  by_cases hanswer : answer = .ready (.ok ())
  · have hzero : s.stream.writeAcked = 0 :=
      Nat.eq_zero_of_not_pos fun hacked => hretries hacked hanswer
    subst hanswer
    rw [afterFlush, flush_then_done hflush]
    dsimp only
    rw [if_pos rfl]
    rw [h.held_eq_nil hzero] at hcarries'
    exact ⟨⟨texts, records, hcarries'.acknowledge 0⟩, rfl, iff_of_true (hflushed.done.mpr rfl) rfl⟩
  · obtain ⟨hsome, hacked⟩ := hflushed.unfinished hanswer h.left.mpr
    rw [afterFlush, flush_then_stop hflush hanswer]
    dsimp only
    rw [if_neg hacked]
    exact ⟨⟨texts, records, hcarries'⟩, h.held.trans hflushed.acked.symm, iff_of_false hsome hacked⟩

theorem Writing.step (h : Writing P key s) (hretries : s.Retries call) :
    Writing P key (s.step P call) := by
  cases call with
  | write answers buf => exact h.step_write hretries
  | flush answers inner => exact h.after_flush hretries
  | shutdown answers inner => exact h.after_flush hretries

/-! ## Faithful calls -/

theorem Writing.faithful (hopens : P.Opens) (h : Writing P key s) (hretries : s.Retries call) :
    s.Faithful P key call := by
  cases call with
  | write answers buf =>
    intro n hready
    by_cases hacked : 0 < s.stream.writeAcked
    · rw [pollWrite, if_pos hacked] at hready
      obtain ⟨hdone, rfl⟩ := finish_write_ready hready
      rw [← h.held]
      exact (hretries hacked hdone).length_le
    · rw [pollWrite, if_neg hacked] at hready
      split at hready
      case h_1 => cases hready
      case h_2 framed writer hencode =>
        obtain ⟨-, rfl⟩ := finish_write_ready hready
        exact Nat.le_refl _
  | flush answers inner =>
    intro hready pieces hpieces
    have hdone := flush_then_ready hready
    have hafter := h.step (P := P) hretries
    obtain ⟨texts, records, hcarries⟩ := hafter.carries
    have hzero : (s.step P (.flush answers inner)).stream.writeAcked = 0 :=
      write_acked_flush_then hdone
    rw [hafter.held_eq_nil hzero, List.append_nil] at hcarries
    exact hcarries.decoded hopens (hafter.left.mpr hzero) hpieces
  | shutdown answers inner => trivial

theorem WriteState.Faithful.acknowledged_eq (hopens : P.Opens)
    (hcarries : Carries P key s.stream s.accepted plain texts records) (hleft : s.stream.left = [])
    (hfaithful : s.Faithful P key (.flush [] (.ready (.ok ())))) : s.acknowledged = plain := by
  have hflush : flushPending [] s.stream = _ :=
    flush_pending_none (left_eq_nil.mp hleft)
  have hpoll : s.stream.pollFlush [] (.ready (.ok ())) = (.ready (.ok ()), [], _) :=
    flush_then_done hflush
  obtain ⟨outputs, decoder, hfed, hacknowledged⟩ : ∃ outputs decoder,
      (RecordDecoder.new key).feedEach P [s.accepted] = (.ok outputs, decoder) ∧
        outputs.flatten = s.acknowledged := by
    refine hfaithful (by rw [hpoll]) [s.accepted] ?_
    rw [WriteState.step, hpoll]
    rfl
  obtain ⟨outputs', decoder', hfed', hplain⟩ :=
    hcarries.decoded hopens hleft (show [s.accepted].flatten = s.accepted from List.append_nil _)
  rw [hfed] at hfed'
  cases hfed'
  exact hacknowledged.symm.trans hplain

theorem acknowledged_step_ne (h : Writing P key s) (hretries : ¬s.Retries call) :
    ∃ texts records, Carries P key (s.step P call).stream (s.step P call).accepted
        (s.acknowledged ++ s.held) texts records ∧ (s.step P call).stream.left = [] ∧
      (s.step P call).acknowledged ≠ s.acknowledged ++ s.held := by
  unfold WriteState.Retries at hretries
  push Not at hretries
  obtain ⟨hacked, hdone, hrepeats⟩ := hretries
  obtain ⟨texts, records, hcarries⟩ := h.carries
  obtain ⟨answer, bytes, stream', hflush, hflushed⟩ := flush_pending_spec call.answers s.stream
  rw [hflush] at hdone
  subst hdone
  have hcarries' := hcarries.flush hflushed
  have hheld : s.held ≠ [] := by
    intro hnil
    rw [← h.held, hnil] at hacked
    exact Nat.lt_irrefl 0 hacked
  refine ⟨texts, records, ?_⟩
  cases call with
  | write answers buf =>
    rw [WriteCall.answers] at hflush
    rw [step_write_under_way hacked, afterWrite, finish_write_done hflush]
    refine ⟨hcarries'.acknowledge 0, hflushed.done.mpr rfl, fun heq => hrepeats ?_⟩
    rw [← List.append_cancel_left heq]
    exact List.take_prefix ..
  | flush answers inner | shutdown answers inner =>
    rw [WriteCall.answers] at hflush
    show Carries P key (afterFlush s answers inner).stream (afterFlush s answers inner).accepted _ _
      _ ∧ (afterFlush s answers inner).stream.left = [] ∧ s.acknowledged ≠ _
    rw [afterFlush, flush_then_done hflush]
    refine ⟨hcarries'.acknowledge 0, hflushed.done.mpr rfl, fun heq => hheld ?_⟩
    exact List.self_eq_append_right.mp heq

theorem Writing.retries_flush (h : Writing P key s) : s.Retries (.flush [] (.ready (.ok ()))) := by
  intro hacked hdone
  have hleft : s.stream.left ≠ [] := fun hnil => Nat.ne_of_gt hacked (h.left.mp hnil)
  have hpos := not_not.mp (mt left_eq_nil.mpr hleft)
  rw [WriteCall.answers, flushPending.eq_def, if_pos hpos] at hdone
  cases hdone

theorem Writing.faithful_iff (hopens : P.Opens) (h : Writing P key s) (calls : List WriteCall) :
    (∀ before, before <+: calls →
      s.Along P (WriteState.Faithful P key) (before ++ [.flush [] (.ready (.ok ()))])) ↔
    s.Along P WriteState.Retries calls := by
  induction calls generalizing s with
  | nil =>
    refine iff_of_true (fun before hbefore => ?_) trivial
    rw [List.prefix_nil.mp hbefore]
    exact ⟨h.faithful hopens h.retries_flush, trivial⟩
  | cons call calls ih =>
    constructor
    · intro hfaithful
      have hretries : s.Retries call := by
        by_contra hnot
        obtain ⟨texts, records, hcarries, hleft, hne⟩ := acknowledged_step_ne h hnot
        obtain ⟨-, hflush, -⟩ := hfaithful [call]
          (List.cons_prefix_cons.mpr ⟨rfl, List.nil_prefix⟩)
        exact hne (hflush.acknowledged_eq hopens hcarries hleft)
      refine ⟨hretries, (ih (h.step hretries)).mp fun before hbefore => ?_⟩
      exact (hfaithful (call :: before) (List.cons_prefix_cons.mpr ⟨rfl, hbefore⟩)).2
    · rintro ⟨hretries, hrest⟩ before hbefore
      cases before with
      | nil => exact ⟨h.faithful hopens h.retries_flush, trivial⟩
      | cons first before =>
        obtain ⟨rfl, hmore⟩ := List.cons_prefix_cons.mp hbefore
        exact ⟨h.faithful hopens hretries, (ih (h.step hretries)).mpr hrest before hmore⟩

end Calls

/-! ## All calls -/

/-- A sequence of calls is faithful, with a flush after any of them, if and only if a write under
way is completed only by a call that repeats it. -/
theorem writes_faithful_iff {P : Primitives} (hopens : P.Opens) (stream : NoiseStream)
    (calls : List WriteCall) : (∀ before, before <+: calls →
      WriteState.Along P (WriteState.Faithful P stream.writeKey) { stream := stream.start }
        (before ++ [.flush [] (.ready (.ok ()))])) ↔
    WriteState.Along P WriteState.Retries { stream := stream.start } calls :=
  (writing_start stream).faithful_iff hopens calls

def repeatedWrite : List WriteCall := [.write [.accepted 5] [1, 2], .write [.accepted 99] [1, 2, 3]]

/-- The repeated write is acknowledged once and decoded. -/
theorem writes_faithful_repeated :
    WriteState.Along plainPrimitives WriteState.Retries { stream := sevenEight.start }
      repeatedWrite ∧
    WriteState.Along plainPrimitives (WriteState.Faithful plainPrimitives sevenEight.writeKey)
      { stream := sevenEight.start } (repeatedWrite ++ [.flush [] (.ready (.ok ()))]) := by
  have hretries : WriteState.Along plainPrimitives WriteState.Retries
      { stream := sevenEight.start } repeatedWrite := by
    refine ⟨fun hacked => ?_, fun _ _ => ⟨[3], ?_⟩, trivial⟩
    · exact absurd hacked (by decide +kernel)
    · decide +kernel
  exact ⟨hretries, (writes_faithful_iff plain_primitives_opens sevenEight repeatedWrite).mpr
    hretries
    repeatedWrite (List.prefix_refl _)⟩

def twoHeld : WriteState :=
  WriteState.step plainPrimitives { stream := sevenEight.start } (.write [.pending] [1, 2])

/-- Another write then acknowledges more bytes than its buffer has. A flush is ready instead, and
the peer decodes two bytes of which none was acknowledged. -/
theorem write_acknowledged_by_another :
    (twoHeld.stream.pollWrite plainPrimitives [.accepted 99] [3]).1 = .ready (.ok 2) ∧
      (twoHeld.stream.pollFlush [.accepted 99] (.ready (.ok ()))).1 = .ready (.ok ()) ∧
      ((RecordDecoder.new sevenEight.writeKey).feed plainPrimitives
        (twoHeld.step plainPrimitives (.flush [.accepted 99] (.ready (.ok ())))).accepted).1 =
          .ok [1, 2] ∧ (twoHeld.step plainPrimitives
        (.flush [.accepted 99] (.ready (.ok ())))).acknowledged = [] := by
  decide +kernel

end Crabscale.Transport
