import Crabscale.Derp.WebSocketWrites

/-!
# Pings on a WebSocket connection

A write first answers the pings that wait. A pong leaves the queue before the sink is asked for
room, so it is lost if the sink is not ready. By `pings_answered_iff` the pongs sent are the pings
read if and only if the sink took every pong that it was asked to take.
-/

namespace Crabscale.Derp

open Rust
open Transport (Poll)

def WsFrame.pongPayload : WsFrame → Option (List UInt8)
  | .pong payload => some payload
  | .binary _ | .text _ | .ping _ | .close => none

def Framed.pongs (sink : Framed) : List (List UInt8) := sink.sent.filterMap WsFrame.pongPayload

theorem Framed.Extends.pongs {sink sink' : Framed} {more : List WsFrame}
    (h : Extends sink more sink') :
    sink'.pongs = sink.pongs ++ more.filterMap WsFrame.pongPayload := by
  rw [Framed.pongs, h.sent, List.filterMap_append, Framed.pongs]

theorem Framed.Extends.same_pongs {sink sink' : Framed} (h : Extends sink [] sink') :
    sink'.pongs = sink.pongs :=
  h.pongs.trans (List.append_nil _)

/-! ## Answering -/

/-- The sink takes each pong that it is asked to take: one after another, until a flush is not
ready. -/
def TakesPongs : List SinkAnswer → List (List UInt8) → Prop
  | _, [] => True
  | answers, pong :: pongs =>
    Takes answers (.pong pong) ∧ (Flushes answers → TakesPongs (answers.drop 2) pongs)

theorem Framed.send_answers {sink sink' : Framed} {answers rest : List SinkAnswer} {frame : WsFrame}
    (h : sink.send answers frame = (.ready (.ok ()), sink', rest)) : rest = answers.drop 2 := by
  unfold send at h
  split at h
  · cases h
  · split at h
    · cases h
    · cases h
    · split at h
      · cases h
      · split at h
        · cases h
        · exact (Prod.ext_iff.mp (Prod.ext_iff.mp h).2).2.symm

namespace WebSocketByteStream

/-- The pongs that leave the queue are sent if the sink takes them; otherwise one of them is lost.
-/
theorem send_pongs_pongs (inner : Framed) (answers : List SinkAnswer)
    (pongs : List (List UInt8)) {answer : Poll (Except WsIoError Unit)} {inner' : Framed}
    {waiting : List (List UInt8)} {rest : List SinkAnswer}
    (h : sendPongs inner answers pongs = (answer, inner', waiting, rest)) :
    (answer = .ready (.ok ()) → waiting = []) ∧
      (TakesPongs answers pongs ∧ inner'.pongs ++ waiting = inner.pongs ++ pongs ∨
        ¬TakesPongs answers pongs ∧
          (inner'.pongs ++ waiting).length < (inner.pongs ++ pongs).length) := by
  induction pongs generalizing inner answers with
  | nil =>
    cases h
    exact ⟨fun _ => rfl, .inl ⟨trivial, rfl⟩⟩
  | cons pong pongs ih =>
    have hspec := inner.send_spec answers (.pong pong)
    rw [sendPongs] at h
    rcases hsend : inner.send answers (.pong pong) with ⟨sent, next, left⟩
    rw [hsend] at h hspec
    have hstop (hnot : sent ≠ .ready (.ok ())) :
        answer ≠ .ready (.ok ()) ∧ inner' = next ∧ waiting = pongs := by
      rcases sent with _ | (error | ⟨⟨⟩⟩)
      · cases h
        exact ⟨pending_ne_done, rfl, rfl⟩
      · cases h
        exact ⟨failed_ne_done error, rfl, rfl⟩
      · exact absurd rfl hnot
    cases hspec with
    | refused htakes hnot hextends =>
      obtain ⟨hanswer, rfl, rfl⟩ := hstop hnot
      refine ⟨fun hdone => absurd hdone hanswer, .inr ⟨fun h => htakes h.1, ?_⟩⟩
      rw [hextends.same_pongs, List.length_append, List.length_append]
      exact Nat.lt_succ_self _
    | started htakes hflushes hnot hextends =>
      obtain ⟨hanswer, rfl, rfl⟩ := hstop hnot
      refine ⟨fun hdone => absurd hdone hanswer,
        .inl ⟨⟨htakes, fun h => absurd h hflushes⟩, ?_⟩⟩
      rw [hextends.pongs, List.append_assoc]
      rfl
    | flushed htakes hflushes hextends =>
      obtain rfl := Framed.send_answers hsend
      obtain ⟨hwaiting, hrest⟩ := ih next _ h
      have hnext : next.pongs ++ pongs = inner.pongs ++ pong :: pongs := by
        rw [hextends.pongs, List.append_assoc]
        rfl
      rw [hnext] at hrest
      refine ⟨hwaiting, hrest.imp (And.imp_left fun h => ⟨htakes, fun _ => h⟩) ?_⟩
      exact And.imp_left fun hnot h => hnot (h.2 hflushes)

def owed (stream : WebSocketByteStream) : List (List UInt8) :=
  stream.inner.pongs ++ stream.pendingPongs

theorem poll_write_owed (stream : WebSocketByteStream) (answers : List SinkAnswer)
    (buf : List UInt8) :
    ((stream.pollWrite answers buf).1 = .ready (.ok buf.length) →
        (stream.pollWrite answers buf).2.pendingPongs = []) ∧
      (TakesPongs answers stream.pendingPongs ∧
          (stream.pollWrite answers buf).2.owed = stream.owed ∨
        ¬TakesPongs answers stream.pendingPongs ∧
          (stream.pollWrite answers buf).2.owed.length < stream.owed.length) := by
  rcases heq : sendPongs stream.inner answers stream.pendingPongs with
    ⟨answer, inner, waiting, rest⟩
  obtain ⟨hwaiting, howed⟩ := send_pongs_pongs _ _ _ heq
  have hstream : ∃ inner', (stream.pollWrite answers buf).2 =
      { stream with inner := inner', pendingPongs := waiting } ∧ inner'.pongs = inner.pongs ∧
      ((stream.pollWrite answers buf).1 = .ready (.ok buf.length) → answer = .ready (.ok ())) := by
    rw [pollWrite, heq]
    rcases answer with _ | (error | ⟨⟨⟩⟩)
    · exact ⟨inner, rfl, rfl, fun h => by cases h⟩
    · exact ⟨inner, rfl, rfl, fun h => by cases h⟩
    · dsimp only
      obtain ⟨more, hmore, hextends⟩ := (inner.send_spec rest (.binary buf)).extends
      have hsame : (inner.send rest (.binary buf)).2.1.pongs = inner.pongs := by
        have hnone : more.filterMap WsFrame.pongPayload = [] :=
          List.filterMap_eq_nil_iff.mpr fun frame hmem => by rw [hmore frame hmem]; rfl
        rw [hextends.pongs, hnone, List.append_nil]
      split <;> rename_i hsend <;> rw [hsend] at hsame <;> exact ⟨_, rfl, hsame, fun _ => rfl⟩
  obtain ⟨inner', hstream, hpongs, hdone⟩ := hstream
  rw [owed, hstream, hpongs]
  exact ⟨fun h => hwaiting (hdone h), howed⟩

/-! ## Reading -/

/-- The pings among the frames that a call reads when no bytes wait. -/
def pingsAmong : List NextFrame → List (List UInt8)
  | .frame (.binary data) :: frames => if data = [] then pingsAmong frames else []
  | .frame (.text data) :: frames => if data = [] then pingsAmong frames else []
  | .frame (.ping payload) :: frames => payload :: pingsAmong frames
  | .frame (.pong _) :: frames => pingsAmong frames
  | .frame .close :: _ | .failed _ :: _ | .ended :: _ | .pending :: _ | [] => []

def pingsRead (stream : WebSocketByteStream) (frames : List NextFrame) : List (List UInt8) :=
  if stream.readBuf = [] then pingsAmong frames else []

theorem pending_poll_read (stream : WebSocketByteStream) (remaining : Nat)
    (frames : List NextFrame) : (stream.pollRead remaining frames).2.2.pendingPongs =
      stream.pendingPongs ++ stream.pingsRead frames := by
  fun_induction pollRead stream remaining frames <;> simp_all [pingsRead, pingsAmong]

end WebSocketByteStream

/-! ## Runs -/

namespace SocketState

def KeepsPongs (s : SocketState) : SocketCall → Prop
  | .write answers _ => TakesPongs answers s.stream.pendingPongs
  | .read .. | .flush .. | .shutdown .. => True

def pingsOf (s : SocketState) : SocketCall → List (List UInt8)
  | .read _ frames => s.stream.pingsRead frames
  | .write .. | .flush .. | .shutdown .. => []

/-- The payloads of the pings that calls read. -/
def pings : SocketState → List SocketCall → List (List UInt8)
  | _, [] => []
  | s, call :: calls => s.pingsOf call ++ (s.step call).pings calls

theorem owed_step (s : SocketState) (call : SocketCall) :
    s.KeepsPongs call ∧ (s.step call).stream.owed = s.stream.owed ++ s.pingsOf call ∨
      ¬s.KeepsPongs call ∧
        (s.step call).stream.owed.length < (s.stream.owed ++ s.pingsOf call).length := by
  cases call with
  | read remaining frames =>
    refine .inl ⟨trivial, ?_⟩
    rw [step, WebSocketByteStream.owed, WebSocketByteStream.pending_poll_read,
      WebSocketByteStream.inner_poll_read, ← List.append_assoc]
    rfl
  | write answers buf =>
    rw [pingsOf, List.append_nil]
    exact (s.stream.poll_write_owed answers buf).2
  | flush answer =>
    have hsame := (Framed.extends_poll_flush s.stream.inner answer).same_pongs
    exact .inl ⟨trivial, (congrArg (· ++ _) hsame).trans (List.append_nil _).symm⟩
  | shutdown answer shutdown =>
    have hsame := (Framed.extends_poll_close s.stream.inner answer shutdown).same_pongs
    exact .inl ⟨trivial, (congrArg (· ++ _) hsame).trans (List.append_nil _).symm⟩

theorem length_owed_run (s : SocketState) (calls : List SocketCall) :
    (s.run calls).stream.owed.length ≤ (s.stream.owed ++ s.pings calls).length := by
  induction calls generalizing s with
  | nil => exact Nat.le_of_eq (congrArg List.length (List.append_nil _).symm)
  | cons call calls ih =>
    have hstep : (s.step call).stream.owed.length ≤ (s.stream.owed ++ s.pingsOf call).length :=
      (s.owed_step call).elim (fun h => Nat.le_of_eq (congrArg List.length h.2)) fun h =>
        Nat.le_of_lt h.2
    have hrun := ih (s.step call)
    rw [List.length_append] at hstep hrun
    rw [pings, List.length_append, List.length_append]
    exact Nat.le_trans hrun (by omega)

theorem owed_run_iff (s : SocketState) (calls : List SocketCall) :
    (s.run calls).stream.owed = s.stream.owed ++ s.pings calls ↔ s.Along KeepsPongs calls := by
  induction calls generalizing s with
  | nil => exact iff_of_true (List.append_nil _).symm trivial
  | cons call calls ih =>
    rw [pings, ← List.append_assoc]
    obtain ⟨hkeeps, howed⟩ | ⟨hloses, hless⟩ := s.owed_step call
    · rw [← howed]
      exact (ih (s.step call)).trans (and_iff_right hkeeps).symm
    · refine iff_of_false (fun heq => ?_) fun halong => hloses halong.1
      have hrun := (s.step call).length_owed_run calls
      have hlength := congrArg List.length heq
      rw [List.length_append] at hrun hlength
      exact absurd (Nat.le_trans (Nat.le_of_eq hlength.symm) hrun) (by omega)

theorem pending_run {s : SocketState} {calls : List SocketCall} (h : s.stream.pendingPongs = [])
    (hpings : s.pings calls = []) : (s.run calls).stream.pendingPongs = [] := by
  induction calls generalizing s with
  | nil => exact h
  | cons call calls ih =>
    obtain ⟨hcall, hcalls⟩ := List.append_eq_nil_iff.mp hpings
    refine ih ?_ hcalls
    cases call with
    | read remaining frames =>
      rw [step, WebSocketByteStream.pending_poll_read, h]
      exact hcall
    | write answers buf =>
      rw [step, WebSocketByteStream.pollWrite, h, WebSocketByteStream.sendPongs]
      dsimp only
      split <;> rfl
    | flush answer => exact h
    | shutdown answer shutdown => exact h

end SocketState

/-- When a write after the last ping has succeeded, the pongs sent are the pings read, in order, if
and only if the sink took each pong that it was asked to take. -/
theorem pings_answered_iff (role : WebSocketRole) (before after : List SocketCall)
    (answers : List SinkAnswer) (buf : List UInt8)
    (hdone : (((startState role).run before).stream.pollWrite answers buf).1 =
      .ready (.ok buf.length))
    (hlast : ((startState role).run (before ++ [.write answers buf])).pings after = []) :
    ((startState role).run (before ++ .write answers buf :: after)).stream.inner.pongs =
        (startState role).pings (before ++ .write answers buf :: after) ↔
      (startState role).Along SocketState.KeepsPongs (before ++ .write answers buf :: after) := by
  rw [← SocketState.owed_run_iff]
  have hwrite : (startState role).run (before ++ [.write answers buf]) =
      ((startState role).run before).step (.write answers buf) := List.foldl_concat ..
  have hrun : (startState role).run (before ++ .write answers buf :: after) =
      ((startState role).run (before ++ [.write answers buf])).run after := by
    rw [hwrite, SocketState.run, List.foldl_append]
    rfl
  have hnone : ((startState role).run (before ++ .write answers buf :: after)).stream.pendingPongs =
      [] := by
    rw [hrun]
    refine SocketState.pending_run ?_ hlast
    rw [hwrite]
    exact (((startState role).run before).stream.poll_write_owed answers buf).1 hdone
  rw [WebSocketByteStream.owed, hnone, List.append_nil]
  rfl

def pinged : List SocketCall := [.read 8 [.frame (.ping [7]), .frame (.ping [8]), .pending]]

/-- Two pings are answered by a write. -/
theorem pings_answered_iff_twice :
    ((startState .server).run
      (pinged ++ [.write (List.replicate 6 .done) [1]])).stream.inner.pongs = [[7], [8]] := by
  have hfits : 1 ≤ maxWebsocketMessageLen := by decide
  have hfirst : Takes (List.replicate 6 .done) (.pong [7]) := ⟨⟨_, rfl, rfl⟩, hfits⟩
  have hsecond : Takes (List.replicate 4 .done) (.pong [8]) := ⟨⟨_, rfl, rfl⟩, hfits⟩
  exact (pings_answered_iff .server pinged [] (List.replicate 6 .done) [1] (by decide) rfl).mpr
    ⟨trivial, ⟨hfirst, fun _ => ⟨hsecond, fun _ => trivial⟩⟩, trivial⟩

/-- The sink is not ready for the pong at the first write. The second succeeds, and the ping is
never answered. -/
theorem pong_lost :
    let write : SocketCall := .write [{ poll := .pending }] [1]
    let before := [.read 8 [.frame (.ping [7]), .pending], write]
    let s := (startState .server).run (before ++ [.write [.done, .done] [1]])
    (((startState .server).run before).stream.pollWrite [.done, .done] [1]).1 = .ready (.ok 1) ∧
      (startState .server).pings (before ++ [.write [.done, .done] [1]]) = [[7]] ∧
      s.stream.inner.sent = [.binary [1]] ∧ s.stream.inner.pongs = [] := by
  decide

end Crabscale.Derp
