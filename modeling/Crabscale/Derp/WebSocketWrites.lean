import Crabscale.Derp.WebSocket

/-!
# Writing to a WebSocket connection

A write is acknowledged when the flush of its frame is ready. A write whose flush is suspended has
started its frame, which is not remembered, so a repeated write sends it again. By `writes_once_iff`
the messages sent are those acknowledged if and only if no write is left with its frame started.
-/

namespace Crabscale.Derp

open Rust
open Transport (Poll)

/-! ## Frames that are sent -/

def WsFrame.Fits (frame : WsFrame) : Prop := frame.parts.2.length ≤ maxWebsocketMessageLen

def encoded (role : WebSocketRole) (frame : WsFrame) : List UInt8 :=
  (encode role frame).toOption.getD []

def WsFrame.binaryPayload : WsFrame → List UInt8
  | .binary data => data
  | .text _ | .ping _ | .pong _ | .close => []

def binaryPayloads (frames : List WsFrame) : List UInt8 := frames.flatMap WsFrame.binaryPayload

variable {frame : WsFrame}

theorem encode_of_fits (role : WebSocketRole) (h : frame.Fits) :
    encode role frame = .ok (encoded role frame) := by
  have hlength : ¬frame.parts.2.length > maxWebsocketMessageLen := Nat.not_lt.mpr h
  cases role <;> simp only [encoded, encode, if_neg hlength, Except.toOption, Option.getD_some]

theorem encode_of_not_fits (role : WebSocketRole) (h : ¬frame.Fits) :
    encode role frame = .error .oversized := by
  simp only [encode, if_pos (Nat.lt_of_not_le h)]

theorem binary_payloads_append (frames more : List WsFrame) :
    binaryPayloads (frames ++ more) = binaryPayloads frames ++ binaryPayloads more :=
  List.flatMap_append

theorem binary_payloads_pongs {frames : List WsFrame}
    (h : ∀ frame ∈ frames, ∃ payload, frame = .pong payload) : binaryPayloads frames = [] := by
  refine List.flatMap_eq_nil_iff.mpr fun frame hframe => ?_
  obtain ⟨payload, rfl⟩ := h frame hframe
  rfl

variable (sink : Framed)

namespace Framed

structure Extends (sink : Framed) (more : List WsFrame) (sink' : Framed) : Prop where
  role : sink'.role = sink.role
  sent : sink'.sent = sink.sent ++ more
  bytes : sink'.wire ++ sink'.writeBuf =
    sink.wire ++ sink.writeBuf ++ more.flatMap (encoded sink.role)

theorem Extends.refl : Extends sink [] sink :=
  ⟨rfl, (List.append_nil _).symm, (List.append_nil _).symm⟩

theorem Extends.trans {sink sink' sink'' : Framed} {more later : List WsFrame}
    (h : Extends sink more sink') (h' : Extends sink' later sink'') :
    Extends sink (more ++ later) sink'' where
  role := h'.role.trans h.role
  sent := by rw [h'.sent, h.sent, List.append_assoc]
  bytes := by rw [h'.bytes, h.bytes, h.role, List.flatMap_append, List.append_assoc _ _ (_ ++ _),
    List.append_assoc, List.append_assoc]

theorem extends_write (n : Nat) : Extends sink [] (sink.write n) where
  role := rfl
  sent := (List.append_nil _).symm
  bytes := by
    rw [write, List.append_assoc, List.take_append_drop, List.flatMap_nil, List.append_nil]

theorem extends_poll_flush (answer : SinkAnswer) :
    Extends sink [] (sink.pollFlush answer).2 := by
  rw [pollFlush]
  split <;> exact extends_write ..

theorem extends_poll_close (answer : SinkAnswer)
    (shutdown : Poll (Except WsIoError Unit)) :
    Extends sink [] (sink.pollClose answer shutdown).2 := by
  have hflush := extends_poll_flush sink answer
  rw [pollClose]
  split <;> rename_i heq <;> rw [heq] at hflush <;> exact hflush

theorem start_send_of_fits (h : frame.Fits) :
    ∃ sink', sink.startSend frame = .ok sink' ∧ Extends sink [frame] sink' := by
  rw [startSend, encode_of_fits _ h]
  refine ⟨_, rfl, rfl, rfl, ?_⟩
  rw [List.flatMap_singleton, List.append_assoc]

theorem start_send_of_not_fits {sink : Framed} (h : ¬frame.Fits) :
    sink.startSend frame = .error (.invalidData .oversized) := by
  rw [startSend, encode_of_not_fits _ h]

theorem poll_flush_fst (answer : SinkAnswer) :
    (sink.pollFlush answer).1 = answer.poll := by
  rw [pollFlush]
  split <;> rename_i heq <;> exact heq.symm

theorem write_buf_poll_flush : (sink.pollFlush .done).2.writeBuf = [] :=
  List.drop_length

end Framed

/-! ## Sending a frame -/

def Takes (answers : List SinkAnswer) (frame : WsFrame) : Prop :=
  (∃ readiness ∈ answers.head?, readiness.poll = .ready (.ok ())) ∧ frame.Fits

def Flushes (answers : List SinkAnswer) : Prop :=
  ∃ flush ∈ answers[1]?, flush.poll = .ready (.ok ())

/-- What becomes of a frame that is sent: it is not started, started and not flushed, or both. -/
inductive Framed.Sending (sink : Framed) (answers : List SinkAnswer) (frame : WsFrame) :
    Poll (Except WsIoError Unit) → Framed → Prop where
  | refused {answer : Poll (Except WsIoError Unit)} {sink' : Framed} :
      ¬Takes answers frame → answer ≠ .ready (.ok ()) → Extends sink [] sink' →
      Sending sink answers frame answer sink'
  | started {answer : Poll (Except WsIoError Unit)} {sink' : Framed} :
      Takes answers frame → ¬Flushes answers → answer ≠ .ready (.ok ()) →
      Extends sink [frame] sink' → Sending sink answers frame answer sink'
  | flushed {sink' : Framed} :
      Takes answers frame → Flushes answers → Extends sink [frame] sink' →
      Sending sink answers frame (.ready (.ok ())) sink'

theorem pending_ne_done : (.pending : Poll (Except WsIoError Unit)) ≠ .ready (.ok ()) := by decide

theorem failed_ne_done (error : WsIoError) :
    (.ready (.error error) : Poll (Except WsIoError Unit)) ≠ .ready (.ok ()) := by simp

theorem not_takes {answers : List SinkAnswer}
    (h : ∀ readiness ∈ answers.head?, readiness.poll ≠ .ready (.ok ())) :
    ¬Takes answers frame := by
  rintro ⟨⟨readiness, hmem, hready⟩, -⟩
  exact h readiness hmem hready

theorem Framed.Sending.flush {sink started : Framed} {readiness flush : SinkAnswer}
    {answers : List SinkAnswer}
    (htakes : Takes (readiness :: flush :: answers) frame)
    (hstarted : Extends sink [frame] started) :
    Sending sink (readiness :: flush :: answers) frame (started.pollFlush flush).1
      (started.pollFlush flush).2 := by
  have hextends := hstarted.trans (extends_poll_flush started flush)
  rw [poll_flush_fst]
  by_cases hdone : flush.poll = .ready (.ok ())
  · rw [hdone]
    exact .flushed htakes ⟨flush, rfl, hdone⟩ hextends
  · refine .started htakes (fun hflushes => ?_) hdone hextends
    obtain ⟨answer, hmem, hready⟩ := hflushes
    cases hmem
    exact hdone hready

theorem Framed.send_spec (answers : List SinkAnswer) (frame : WsFrame) :
    Sending sink answers frame (sink.send answers frame).1 (sink.send answers frame).2.1 := by
  cases answers with
  | nil => exact .refused (not_takes fun _ hmem => by cases hmem) pending_ne_done (.refl sink)
  | cons readiness answers =>
    have hready : Extends sink [] (sink.write readiness.written) := extends_write ..
    rw [send, pollReady]
    rcases hpoll : readiness.poll with _ | (error | ⟨⟨⟩⟩)
    · refine .refused (not_takes fun answer hmem => ?_) pending_ne_done hready
      cases hmem
      rw [hpoll]
      exact pending_ne_done
    · refine .refused (not_takes fun answer hmem => ?_) (failed_ne_done error) hready
      cases hmem
      rw [hpoll]
      exact failed_ne_done error
    · dsimp only
      by_cases hfits : frame.Fits
      · have htakes : Takes (readiness :: answers) frame := ⟨⟨readiness, rfl, hpoll⟩, hfits⟩
        obtain ⟨started, hstart, hextends⟩ := start_send_of_fits
          (sink.write readiness.written) hfits
        rw [hstart]
        cases answers with
        | nil =>
          refine .started htakes (fun hflushes => ?_) pending_ne_done (hready.trans hextends)
          obtain ⟨answer, hmem, -⟩ := hflushes
          cases hmem
        | cons flush answers => exact .flush htakes (hready.trans hextends)
      · rw [start_send_of_not_fits hfits]
        exact .refused (fun htakes => hfits htakes.2) (failed_ne_done _) hready

theorem Framed.Sending.extends {sink sink' : Framed} {answers : List SinkAnswer}
    {answer : Poll (Except WsIoError Unit)} (h : Sending sink answers frame answer sink') :
    ∃ more, (∀ other ∈ more, other = frame) ∧ Extends sink more sink' := by
  cases h with
  | refused _ _ hextends => exact ⟨[], fun _ hmem => absurd hmem List.not_mem_nil, hextends⟩
  | started _ _ _ hextends => exact ⟨[frame], fun _ => List.mem_singleton.mp, hextends⟩
  | flushed _ _ hextends => exact ⟨[frame], fun _ => List.mem_singleton.mp, hextends⟩

namespace WebSocketByteStream

theorem send_pongs_spec (inner : Framed) (answers : List SinkAnswer) (pongs : List (List UInt8)) :
    ∃ more, (∀ frame ∈ more, ∃ payload, frame = .pong payload) ∧
      Framed.Extends inner more (sendPongs inner answers pongs).2.1 := by
  induction pongs generalizing inner answers with
  | nil => exact ⟨[], fun _ hmem => absurd hmem List.not_mem_nil, .refl inner⟩
  | cons pong pongs ih =>
    obtain ⟨more, hmore, hextends⟩ := (inner.send_spec answers (.pong pong)).extends
    have hpongs : ∀ frame ∈ more, ∃ payload, frame = WsFrame.pong payload :=
      fun frame hmem => ⟨pong, hmore frame hmem⟩
    rw [sendPongs]
    rcases heq : inner.send answers (.pong pong) with ⟨answer, inner', answers'⟩
    rw [heq] at hextends
    rcases answer with _ | (error | ⟨⟨⟩⟩)
    · exact ⟨more, hpongs, hextends⟩
    · exact ⟨more, hpongs, hextends⟩
    · obtain ⟨later, hlater, hextends'⟩ := ih inner' answers'
      refine ⟨more ++ later, fun frame hmem => ?_, hextends.trans hextends'⟩
      exact (List.mem_append.mp hmem).elim (hpongs frame) (hlater frame)

/-- The pongs are sent and the frame of a write is started, but the flush after it is not ready. -/
def LeavesStarted (stream : WebSocketByteStream) (answers : List SinkAnswer) (buf : List UInt8) :
    Prop :=
  let pongs := sendPongs stream.inner answers stream.pendingPongs
  pongs.1 = .ready (.ok ()) ∧ Takes pongs.2.2.2 (.binary buf) ∧ ¬Flushes pongs.2.2.2

end WebSocketByteStream

/-! ## Calls -/

inductive SocketCall where
  | read (remaining : Nat) (frames : List NextFrame)
  | write (answers : List SinkAnswer) (buf : List UInt8)
  | flush (answer : SinkAnswer)
  | shutdown (answer : SinkAnswer) (shutdown : Poll (Except WsIoError Unit))

def acknowledgedBy (buf : List UInt8) : Poll (Except WsIoError Nat) → List UInt8
  | .ready (.ok n) => buf.take n
  | .ready (.error _) | .pending => []

/-- A stream that is used, with the bytes that were acknowledged. -/
structure SocketState where
  stream : WebSocketByteStream
  acknowledged : List UInt8 := []

namespace SocketState

def step (s : SocketState) : SocketCall → SocketState
  | .read remaining frames => { s with stream := (s.stream.pollRead remaining frames).2.2 }
  | .write answers buf =>
    { stream := (s.stream.pollWrite answers buf).2
      acknowledged := s.acknowledged ++ acknowledgedBy buf (s.stream.pollWrite answers buf).1 }
  | .flush answer => { s with stream := (s.stream.pollFlush answer).2 }
  | .shutdown answer shutdown => { s with stream := (s.stream.pollShutdown answer shutdown).2 }

def run (s : SocketState) (calls : List SocketCall) : SocketState := calls.foldl step s

def Completes (s : SocketState) : SocketCall → Prop
  | .write answers buf => s.stream.LeavesStarted answers buf → buf = []
  | .read .. | .flush .. | .shutdown .. => True

def Along (p : SocketState → SocketCall → Prop) : SocketState → List SocketCall → Prop
  | _, [] => True
  | s, call :: calls => p s call ∧ Along p (s.step call) calls

def payloads (s : SocketState) : List UInt8 := binaryPayloads s.stream.inner.sent

end SocketState

namespace WebSocketByteStream

/-- What becomes of a write: its frame is not started, started and not flushed, or both. -/
inductive Writing (stream : WebSocketByteStream) (answers : List SinkAnswer) (buf : List UInt8) :
    List UInt8 → List UInt8 → Prop where
  | refused : ¬stream.LeavesStarted answers buf → Writing stream answers buf [] []
  | started : stream.LeavesStarted answers buf → Writing stream answers buf buf []
  | flushed : ¬stream.LeavesStarted answers buf → Writing stream answers buf buf buf

section Writing

variable {stream : WebSocketByteStream} {answers rest : List SinkAnswer} {inner : Framed}
  {waiting : List (List UInt8)} {answer : Poll (Except WsIoError Unit)} (buf : List UInt8)

theorem leaves_started_iff
    (h : sendPongs stream.inner answers stream.pendingPongs = (answer, inner, waiting, rest)) :
    stream.LeavesStarted answers buf ↔
      answer = .ready (.ok ()) ∧ Takes rest (.binary buf) ∧ ¬Flushes rest := by
  rw [LeavesStarted, h]

theorem poll_write_stopped
    (h : sendPongs stream.inner answers stream.pendingPongs = (answer, inner, waiting, rest))
    (hanswer : answer ≠ .ready (.ok ())) :
    (stream.pollWrite answers buf).2.inner = inner ∧
      acknowledgedBy buf (stream.pollWrite answers buf).1 = [] := by
  rw [pollWrite, h]
  rcases answer with _ | (error | ⟨⟨⟩⟩)
  · exact ⟨rfl, rfl⟩
  · exact ⟨rfl, rfl⟩
  · exact absurd rfl hanswer

theorem poll_write_sent
    (h : sendPongs stream.inner answers stream.pendingPongs =
      (.ready (.ok ()), inner, waiting, rest)) :
    (stream.pollWrite answers buf).2.inner = (inner.send rest (.binary buf)).2.1 ∧
      acknowledgedBy buf (stream.pollWrite answers buf).1 =
        if (inner.send rest (.binary buf)).1 = .ready (.ok ()) then buf else [] := by
  rw [pollWrite, h]
  dsimp only
  rcases inner.send rest (.binary buf) with ⟨_ | (error | ⟨⟨⟩⟩), sent, left⟩
  · exact ⟨rfl, (if_neg pending_ne_done).symm⟩
  · exact ⟨rfl, (if_neg (failed_ne_done error)).symm⟩
  · exact ⟨rfl, List.take_length.trans (if_pos rfl).symm⟩

theorem poll_write_spec (stream : WebSocketByteStream) (answers : List SinkAnswer)
    (buf : List UInt8) :
    ∃ more, Framed.Extends stream.inner more (stream.pollWrite answers buf).2.inner ∧
      Writing stream answers buf (binaryPayloads more)
        (acknowledgedBy buf (stream.pollWrite answers buf).1) := by
  obtain ⟨pongs, hpongs, hextends⟩ := send_pongs_spec stream.inner answers stream.pendingPongs
  have hnone := binary_payloads_pongs hpongs
  have hbinary : binaryPayloads (pongs ++ [.binary buf]) = buf := by
    rw [binary_payloads_append, hnone]
    exact List.append_nil buf
  rcases heq : sendPongs stream.inner answers stream.pendingPongs with
    ⟨answer, inner, waiting, rest⟩
  rw [heq] at hextends
  have hleaves := leaves_started_iff buf heq
  by_cases hanswer : answer = .ready (.ok ())
  · subst answer
    obtain ⟨hinner, hacknowledged⟩ := poll_write_sent buf heq
    rw [hinner, hacknowledged]
    have hspec := inner.send_spec rest (.binary buf)
    generalize inner.send rest (.binary buf) = result at hspec ⊢
    obtain ⟨answer, sent, left⟩ := result
    cases hspec with
    | refused htakes hnot hsent =>
      refine ⟨pongs ++ [], hextends.trans hsent, ?_⟩
      rw [List.append_nil, hnone, if_neg hnot]
      exact .refused fun hstarted => htakes (hleaves.mp hstarted).2.1
    | started htakes hflushes hnot hsent =>
      refine ⟨_, hextends.trans hsent, ?_⟩
      rw [hbinary, if_neg hnot]
      exact .started (hleaves.mpr ⟨rfl, htakes, hflushes⟩)
    | flushed htakes hflushes hsent =>
      refine ⟨_, hextends.trans hsent, ?_⟩
      rw [hbinary, if_pos rfl]
      exact .flushed fun hstarted => (hleaves.mp hstarted).2.2 hflushes
  · obtain ⟨hinner, hacknowledged⟩ := poll_write_stopped buf heq hanswer
    refine ⟨pongs, hinner ▸ hextends, ?_⟩
    rw [hnone, hacknowledged]
    exact .refused fun hstarted => hanswer (hleaves.mp hstarted).1

end Writing

theorem inner_poll_read (stream : WebSocketByteStream) (remaining : Nat) (frames : List NextFrame) :
    (stream.pollRead remaining frames).2.2.inner = stream.inner := by
  fun_induction pollRead stream remaining frames <;> first | rfl | assumption

end WebSocketByteStream

namespace SocketState

inductive Adds (s : SocketState) (call : SocketCall) : List UInt8 → List UInt8 → Prop where
  | same (bytes : List UInt8) : s.Completes call → Adds s call bytes bytes
  | ahead {bytes : List UInt8} : ¬s.Completes call → bytes ≠ [] → Adds s call bytes []

theorem step_spec (s : SocketState) (call : SocketCall) :
    ∃ more acknowledged, Framed.Extends s.stream.inner more (s.step call).stream.inner ∧
      (s.step call).acknowledged = s.acknowledged ++ acknowledged ∧
      Adds s call (binaryPayloads more) acknowledged := by
  cases call with
  | read remaining frames =>
    refine ⟨[], [], ?_, (List.append_nil _).symm, .same [] trivial⟩
    rw [step, WebSocketByteStream.inner_poll_read]
    exact .refl _
  | write answers buf =>
    obtain ⟨more, hextends, hwriting⟩ := s.stream.poll_write_spec answers buf
    refine ⟨more, _, hextends, rfl, ?_⟩
    generalize binaryPayloads more = bytes at hwriting ⊢
    generalize acknowledgedBy buf _ = acknowledged at hwriting ⊢
    cases hwriting with
    | refused hnot => exact .same [] fun hstarted => absurd hstarted hnot
    | started hstarted =>
      by_cases hempty : buf = []
      · subst buf
        exact .same [] fun _ => rfl
      · exact .ahead (fun hcompletes => hempty (hcompletes hstarted)) hempty
    | flushed hnot => exact .same buf fun hstarted => absurd hstarted hnot
  | flush answer =>
    exact ⟨[], [], Framed.extends_poll_flush .., (List.append_nil _).symm, .same [] trivial⟩
  | shutdown answer shutdown =>
    exact ⟨[], [], Framed.extends_poll_close .., (List.append_nil _).symm, .same [] trivial⟩

def Ahead (s : SocketState) : Prop := s.acknowledged.length < s.payloads.length

variable {s : SocketState}

theorem payloads_step {s' : SocketState} {more : List WsFrame}
    (h : Framed.Extends s.stream.inner more s'.stream.inner) :
    s'.payloads = s.payloads ++ binaryPayloads more := by
  rw [payloads, h.sent, binary_payloads_append, payloads]

theorem Ahead.step (h : s.Ahead) (call : SocketCall) : (s.step call).Ahead := by
  obtain ⟨more, acknowledged, hextends, hacknowledged, hadds⟩ := s.step_spec call
  have hle : acknowledged.length ≤ (binaryPayloads more).length := by
    generalize binaryPayloads more = bytes at hadds ⊢
    cases hadds with
    | same _ => exact Nat.le_refl _
    | ahead _ _ => exact Nat.zero_le _
  rw [Ahead, payloads_step hextends, hacknowledged, List.length_append, List.length_append]
  exact Nat.add_lt_add_of_lt_of_le h hle

theorem Ahead.run (h : s.Ahead) (calls : List SocketCall) :
    (s.run calls).Ahead := by
  induction calls generalizing s with
  | nil => exact h
  | cons call calls ih => exact ih (h.step call)

theorem exact_step (h : s.payloads = s.acknowledged) (call : SocketCall) :
    s.Completes call ∧ (s.step call).payloads = (s.step call).acknowledged ∨
      ¬s.Completes call ∧ (s.step call).Ahead := by
  obtain ⟨more, acknowledged, hextends, hacknowledged, hadds⟩ := s.step_spec call
  rw [Ahead, payloads_step hextends, hacknowledged, h]
  generalize binaryPayloads more = bytes at hadds ⊢
  cases hadds with
  | same hcompletes => exact .inl ⟨hcompletes, rfl⟩
  | ahead hnot hne =>
    refine .inr ⟨hnot, ?_⟩
    rw [List.append_nil, List.length_append]
    exact Nat.lt_add_of_pos_right (List.length_pos_iff.mpr hne)

theorem exact_run_iff (h : s.payloads = s.acknowledged)
    (calls : List SocketCall) :
    (s.run calls).payloads = (s.run calls).acknowledged ↔ s.Along Completes calls := by
  induction calls generalizing s with
  | nil => exact iff_of_true h trivial
  | cons call calls ih =>
    rcases exact_step h call with ⟨hcompletes, hexact⟩ | ⟨hnot, hahead⟩
    · exact (ih hexact).trans (and_iff_right hcompletes).symm
    · refine iff_of_false (fun heq => ?_) fun halong => hnot halong.1
      exact absurd (congrArg List.length heq).symm (Nat.ne_of_lt (hahead.run calls))

theorem bytes_run (s : SocketState) (calls : List SocketCall) :
    ∃ more, Framed.Extends s.stream.inner more (s.run calls).stream.inner := by
  induction calls generalizing s with
  | nil => exact ⟨[], .refl _⟩
  | cons call calls ih =>
    obtain ⟨more, -, hextends, -⟩ := s.step_spec call
    obtain ⟨later, hlater⟩ := ih (s.step call)
    exact ⟨more ++ later, hextends.trans hlater⟩

end SocketState

def startState (role : WebSocketRole) : SocketState where
  stream := .withRole role

/-- After calls and a flush that is ready, all frames that were started are on the wire. Their
binary messages are what the writes acknowledged if and only if no write of some bytes was left, by
a flush that was not ready, with its frame started. -/
theorem writes_once_iff (role : WebSocketRole) (calls : List SocketCall) :
    let s := (startState role).run (calls ++ [.flush .done])
    s.stream.inner.wire = s.stream.inner.sent.flatMap (encoded role) ∧
      (binaryPayloads s.stream.inner.sent = s.acknowledged ↔
        (startState role).Along SocketState.Completes calls) := by
  intro s
  have hrun : s = ((startState role).run calls).step (.flush .done) := List.foldl_concat ..
  have hflush := Framed.extends_poll_flush ((startState role).run calls).stream.inner .done
  have hbuf := Framed.write_buf_poll_flush ((startState role).run calls).stream.inner
  rw [hrun]
  constructor
  · obtain ⟨more, hextends⟩ := SocketState.bytes_run (startState role) calls
    have hall := hextends.trans hflush
    rw [← List.append_nil (Framed.wire _), ← hbuf]
    exact hall.bytes.trans (congrArg (List.flatMap (encoded role)) hall.sent).symm
  · have hsent : (((startState role).run calls).step (.flush .done)).payloads =
        ((startState role).run calls).payloads :=
      (SocketState.payloads_step hflush).trans (List.append_nil _)
    exact (Eq.congr_left hsent).trans (SocketState.exact_run_iff rfl calls)

def repeatedMessage : List SocketCall :=
  [.write [.done, { poll := .pending }] [104, 105], .write [.done, .done] [104, 105]]

/-- The first call is pending and the second acknowledges both bytes. The message is sent twice. -/
theorem message_sent_twice :
    let s := (startState .server).run (repeatedMessage ++ [.flush .done])
    (WebSocketByteStream.pollWrite (.withRole .server) [.done, { poll := .pending }]
        [104, 105]).1 = .pending ∧
      s.acknowledged = [104, 105] ∧
      binaryPayloads s.stream.inner.sent = [104, 105, 104, 105] ∧
      s.stream.inner.wire = [0x82, 2, 104, 105, 0x82, 2, 104, 105] := by
  decide

end Crabscale.Derp
