import Crabscale.Interaction.Framing
import Crabscale.Rust.Bytes

/-!
# Frames of map responses

A frame is the length of its payload, lowest byte first, and the payload. `map_frames_decode`: a
stream of frames, cut anywhere, is decoded up to its last complete frame.
-/

namespace Crabscale.Proto

open Rust Interaction Interaction.Framing

def mapResponseFrameHeaderLen : Nat := 4

def maxMapResponsePayloadLen : Nat := 16 * 1024 * 1024

inductive FrameError where
  | truncated
  | oversized
  deriving DecidableEq

def encodeMapResponseFrame (payload : List UInt8) : Except FrameError (List UInt8) :=
  if payload.length > maxMapResponsePayloadLen then .error .oversized
  else .ok ((toLeBytes32 payload.length).val ++ payload)

def declaredLen (buf : List UInt8) (h : mapResponseFrameHeaderLen ≤ buf.length) : Nat :=
  fromLeBytes32 (Bytes.copyFrom mapResponseFrameHeaderLen buf 0 (by omega))

/-- The payload of the first frame and the number of bytes that the frame takes. -/
def decodeMapResponseFrame (buf : List UInt8) : Except FrameError (List UInt8 × Nat) :=
  if h : mapResponseFrameHeaderLen ≤ buf.length then
    let len := declaredLen buf h
    if len > maxMapResponsePayloadLen then .error .oversized
    else if buf.length < mapResponseFrameHeaderLen + len then .error .truncated
    else .ok ((buf.drop mapResponseFrameHeaderLen).take len, mapResponseFrameHeaderLen + len)
  else .error .truncated

/-- Decode one frame after another; what is truncated waits for more. -/
def nextPayload : Decoder Unit UInt8 (List UInt8) FrameError := fun s buf =>
  match decodeMapResponseFrame buf with
  | .ok (payload, used) => (.ok (some ([payload], used)), s)
  | .error .truncated => (.ok none, s)
  | .error .oversized => (.error .oversized, s)

section Frames

variable {payload frame rest : List UInt8}

theorem decode_map_response_frame_of_header {len : Nat} (hlen : len ≤ maxMapResponsePayloadLen) :
    decodeMapResponseFrame ((toLeBytes32 len).val ++ rest) =
      if rest.length < len then .error .truncated else .ok (rest.take len, 4 + len) := by
  have htotal : ((toLeBytes32 len).val ++ rest).length = 4 + rest.length := by
    rw [List.length_append, (toLeBytes32 len).property]
  have hheader : mapResponseFrameHeaderLen ≤ ((toLeBytes32 len).val ++ rest).length :=
    htotal ▸ Nat.le_add_right 4 _
  have hdeclared : declaredLen _ hheader = len := by
    refine Eq.trans (congrArg fromLeBytes32 ?_)
      (from_le_bytes32_to_le_bytes32 (Nat.lt_of_le_of_lt hlen (by decide)))
    exact Bytes.copy_from_of_eq [] (toLeBytes32 len) rest rfl rfl _
  rw [decodeMapResponseFrame, dif_pos hheader]
  dsimp only
  rw [hdeclared, if_neg (Nat.not_lt_of_le hlen), htotal]
  simp only [mapResponseFrameHeaderLen, Nat.add_lt_add_iff_left]
  rfl

theorem is_frame_encode (h : encodeMapResponseFrame payload = .ok frame) :
    IsFrame nextPayload () frame [payload] () := by
  unfold encodeMapResponseFrame at h
  split at h
  case isTrue => cases h
  case isFalse hlen =>
    cases h
    have hlen := Nat.le_of_not_lt hlen
    refine ⟨List.cons_ne_nil _ _, fun rest => ?_, fun front rest hfront hrest => ?_⟩
    · rw [List.append_assoc, nextPayload, decode_map_response_frame_of_header hlen,
        if_neg (by simp), List.take_left, List.length_append, (toLeBytes32 payload.length).property]
    · have htruncated : decodeMapResponseFrame front = .error .truncated := by
        by_cases hheader : mapResponseFrameHeaderLen ≤ front.length
        · obtain ⟨more, rfl⟩ : (toLeBytes32 payload.length).val <+: front :=
            List.prefix_of_prefix_length_le (List.prefix_append _ _) ⟨rest, hfront.symm⟩ hheader
          rw [List.append_assoc, List.append_cancel_left_eq] at hfront
          rw [decode_map_response_frame_of_header hlen, if_pos]
          rw [hfront, List.length_append]
          exact Nat.lt_add_of_pos_right (List.length_pos_of_ne_nil hrest)
        · rw [decodeMapResponseFrame, dif_neg hheader]
      rw [nextPayload, htruncated]

theorem decode_of_next_payload (h : nextPayload () rest = (.ok none, ())) :
    decodeMapResponseFrame rest = .error .truncated := by
  unfold nextPayload at h
  split at h
  case h_2 htruncated => exact htruncated
  all_goals cases h

/-- The accepted payloads and their frames. -/
abbrev Encodes (payloads frames : List (List UInt8)) : Prop :=
  List.Forall₂ (fun payload frame => encodeMapResponseFrame payload = .ok frame) payloads frames

theorem Encodes.frames {payloads frames : List (List UInt8)} (h : Encodes payloads frames) :
    Frames nextPayload () frames (payloads.map ([·])) () := by
  induction h with
  | nil => exact .nil rfl
  | cons hfirst _ ih => exact .cons (is_frame_encode hfirst) ih

/-- However a stream of frames is cut, decoding returns the payloads of the complete frames and then
reports what is left as truncated, which is less than the next frame. -/
theorem map_frames_decode (payloads frames : List (List UInt8)) (buf : List UInt8)
    (h : Encodes payloads frames) (hbuf : buf <+: frames.flatten) :
    ∃ n rest, drain nextPayload (buf.length + 1) () buf = (.ok (payloads.take n), (), rest) ∧
      buf = (frames.take n).flatten ++ rest ∧ decodeMapResponseFrame rest = .error .truncated ∧
      (∀ frame, frames[n]? = some frame → rest.length < frame.length) ∧
      (buf = frames.flatten → n = payloads.length ∧ rest = []) := by
  obtain ⟨later, hlater⟩ := hbuf
  obtain ⟨taken, left, outTaken, outLeft, _, rest, hdrain, rfl, houts, hlength, hbuf, hleft⟩ :=
    h.frames.drain hlater (Nat.lt_succ_self _)
  have hpayloads : outTaken = (payloads.take taken.length).map ([·]) := by
    rw [List.map_take, houts, hlength, List.take_left]
  refine ⟨taken.length, rest, ?_, ?_, decode_of_next_payload hleft.waits, ?_, ?_⟩
  · rw [hdrain, hpayloads, ← List.flatMap_def, List.flatMap_singleton']
  · rw [List.take_left, hbuf]
  · intro frame hframe
    rw [List.getElem?_append_right (Nat.le_refl _), Nat.sub_self] at hframe
    exact hleft.part frame (List.head?_eq_getElem? ▸ hframe)
  · rintro rfl
    rw [List.append_right_eq_self] at hlater
    subst hlater
    obtain ⟨rfl, -, rfl⟩ := hleft.finished
    have hall := congrArg List.length houts
    rw [List.length_map, List.append_nil] at hall
    exact ⟨hlength.trans hall.symm, rfl⟩

end Frames

/-- Two frames, cut within the header of the second. -/
theorem map_frames_decode_cut :
    ∃ n rest, [1, 0, 0, 0, 1, 2, 0] =
        (List.take n [[1, 0, 0, 0, 1], [2, 0, 0, 0, 2, 3]]).flatten ++ rest ∧
      decodeMapResponseFrame rest = .error .truncated := by
  obtain ⟨n, rest, -, hbuf, htruncated, -⟩ := map_frames_decode [[1], [2, 3]] _ _
    (.cons rfl (.cons rfl .nil)) (List.take_prefix 7 _)
  exact ⟨n, rest, hbuf, htruncated⟩

end Crabscale.Proto
