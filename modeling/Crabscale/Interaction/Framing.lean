import Mathlib.Data.List.Basic

/-!
# Decoding frames from a stream

A decoder looks at the beginning of what was received: it waits for more, or yields the output of
one frame and the number of items it took. `drain` applies it until it waits. `Frames` says that a
decoder yields the outputs of some frames; while they arrive in pieces, a reader holds the beginning
of the frame that comes next (`Decoding`), whatever the pieces are (`Decoding.feed`).
-/

namespace Crabscale.Interaction.Framing

variable {σ β γ ε : Type}

/-- A decoder with a state: it fails, waits, or yields output and the number of items it took. -/
abbrev Decoder (σ β γ ε : Type) : Type := σ → List β → Except ε (Option (List γ × Nat)) × σ

def drain (decode : Decoder σ β γ ε) : (fuel : Nat) → σ → List β → Except ε (List γ) × σ × List β
  | 0, s, buf => (.ok [], s, buf)
  | fuel + 1, s, buf =>
    match decode s buf with
    | (.error error, s) => (.error error, s, buf)
    | (.ok none, s) => (.ok [], s, buf)
    | (.ok (some (out, used)), s) =>
      match drain decode fuel s (buf.drop used) with
      | (.error error, s, buf) => (.error error, s, buf)
      | (.ok more, s, buf) => (.ok (out ++ more), s, buf)

variable {decode : Decoder σ β γ ε}

variable {buf : List β}

theorem drain_wait {fuel : Nat} {s s' : σ} (h : decode s buf = (.ok none, s')) :
    drain decode (fuel + 1) s buf = (.ok [], s', buf) := by
  rw [drain, h]

theorem drain_frame {fuel used : Nat} {s s' s'' : σ} {rest : List β} {out more : List γ}
    (h : decode s buf = (.ok (some (out, used)), s'))
    (hmore : drain decode fuel s' (buf.drop used) = (.ok more, s'', rest)) :
    drain decode (fuel + 1) s buf = (.ok (out ++ more), s'', rest) := by
  rw [drain, h]
  dsimp only
  rw [hmore]

/-! ## Frames -/

structure IsFrame (decode : Decoder σ β γ ε) (s : σ) (frame : List β) (out : List γ) (s' : σ) :
    Prop where
  ne_nil : frame ≠ []
  whole : ∀ rest, decode s (frame ++ rest) = (.ok (some (out, frame.length)), s')
  part : ∀ front rest, frame = front ++ rest → rest ≠ [] → decode s front = (.ok none, s)

theorem IsFrame.waits {s s' : σ} {frame front more later : List β} {out : List γ}
    (h : IsFrame decode s frame out s') (hfront : front ++ later = frame ++ more)
    (hlen : front.length < frame.length) : decode s front = (.ok none, s) := by
  obtain ⟨rest, hframe⟩ : front <+: frame :=
    List.prefix_of_prefix_length_le ⟨later, hfront⟩ (List.prefix_append _ _) (Nat.le_of_lt hlen)
  refine h.part front rest hframe.symm ?_
  rintro rfl
  rw [List.append_nil] at hframe
  exact Nat.ne_of_lt hlen (congrArg List.length hframe)

inductive Frames (decode : Decoder σ β γ ε) : σ → List (List β) → List (List γ) → σ → Prop where
  | nil {s : σ} : decode s [] = (.ok none, s) → Frames decode s [] [] s
  | cons {s s' s'' : σ} {frame : List β} {out : List γ} {frames : List (List β)}
      {outs : List (List γ)} : IsFrame decode s frame out s' → Frames decode s' frames outs s'' →
      Frames decode s (frame :: frames) (out :: outs) s''

structure Decoding (decode : Decoder σ β γ ε) (last : σ) (later : List β) (s : σ) (buf : List β)
    (frames : List (List β)) (outs : List (List γ)) : Prop where
  coming : Frames decode s frames outs last
  rest : buf ++ later = frames.flatten
  part : ∀ frame ∈ frames.head?, buf.length < frame.length

variable {frames : List (List β)} {outs : List (List γ)}

theorem Frames.decoding {s last : σ} (h : Frames decode s frames outs last) :
    Decoding decode last frames.flatten s [] frames outs where
  coming := h
  rest := List.nil_append _
  part frame hframe := by
    cases h with
    | nil _ => cases hframe
    | cons hfirst _ =>
      cases hframe
      exact List.length_pos_of_ne_nil hfirst.ne_nil

theorem Decoding.waits {later : List β} {s last : σ}
    (h : Decoding decode last later s buf frames outs) : decode s buf = (.ok none, s) := by
  obtain ⟨hframes, hrest, hpart⟩ := h
  cases hframes with
  | nil hwait =>
    obtain ⟨rfl, -⟩ := List.append_eq_nil_iff.mp hrest
    exact hwait
  | cons hfirst _ => exact hfirst.waits hrest (hpart _ rfl)

theorem Decoding.finished {s last : σ} (h : Decoding decode last [] s buf frames outs) :
    buf = [] ∧ frames = [] ∧ outs = [] := by
  obtain ⟨hframes, hrest, hpart⟩ := h
  rw [List.append_nil] at hrest
  cases hframes with
  | nil _ => exact ⟨hrest, rfl, rfl⟩
  | @cons _ _ _ frame _ frames _ _ _ =>
    have hlt : buf.length < frame.length := hpart frame rfl
    rw [hrest, List.flatten_cons, List.length_append] at hlt
    omega

theorem Frames.drain {s last : σ} (h : Frames decode s frames outs last) {later : List β}
    (hrest : buf ++ later = frames.flatten) {fuel : Nat} (hfuel : buf.length < fuel) :
    ∃ taken left outTaken outLeft s' buf',
      Framing.drain decode fuel s buf = (.ok outTaken.flatten, s', buf') ∧
      frames = taken ++ left ∧ outs = outTaken ++ outLeft ∧ taken.length = outTaken.length ∧
      buf = taken.flatten ++ buf' ∧ Decoding decode last later s' buf' left outLeft := by
  induction h generalizing buf fuel with
  | @nil s hwait =>
    obtain ⟨rfl, rfl⟩ := List.append_eq_nil_iff.mp hrest
    obtain ⟨fuel, rfl⟩ := Nat.exists_eq_succ_of_ne_zero (Nat.ne_zero_of_lt hfuel)
    exact ⟨[], [], [], [], s, [], drain_wait hwait, rfl, rfl, rfl, rfl,
      (Frames.nil hwait).decoding⟩
  | @cons s s' s'' frame out frames outs hfirst hmore ih =>
    obtain ⟨fuel, rfl⟩ := Nat.exists_eq_succ_of_ne_zero (Nat.ne_zero_of_lt hfuel)
    rw [List.flatten_cons] at hrest
    by_cases hlen : buf.length < frame.length
    · -- The first frame is not complete.
      refine ⟨[], frame :: frames, [], out :: outs, s, buf,
        drain_wait (hfirst.waits hrest hlen), rfl, rfl, rfl, rfl,
        .cons hfirst hmore, hrest, fun other hother => ?_⟩
      cases hother
      exact hlen
    · obtain ⟨buf', rfl⟩ : frame <+: buf :=
        List.prefix_of_prefix_length_le (List.prefix_append _ _) ⟨later, hrest⟩
          (Nat.le_of_not_lt hlen)
      rw [List.append_assoc, List.append_cancel_left_eq] at hrest
      have hpos := List.length_pos_of_ne_nil hfirst.ne_nil
      rw [List.length_append] at hfuel
      obtain ⟨taken, left, outTaken, outLeft, s₁, buf₁, hdrain, hframes, houts, hlength, hbuf,
        hdecoding⟩ := ih hrest (by omega : buf'.length < fuel)
      refine ⟨frame :: taken, left, out :: outTaken, outLeft, s₁, buf₁, ?_, ?_, ?_, ?_, ?_,
        hdecoding⟩
      · refine drain_frame (hfirst.whole buf') ?_
        rw [List.drop_left]
        exact hdrain
      · rw [hframes, List.cons_append]
      · rw [houts, List.cons_append]
      · rw [List.length_cons, List.length_cons, hlength]
      · rw [List.flatten_cons, List.append_assoc, ← hbuf]

theorem Decoding.feed {last s : σ} {data later : List β}
    (h : Decoding decode last (data ++ later) s buf frames outs) :
    ∃ taken left outTaken outLeft s' buf',
      Framing.drain decode ((buf ++ data).length + 1) s (buf ++ data) =
        (.ok outTaken.flatten, s', buf') ∧
      frames = taken ++ left ∧ outs = outTaken ++ outLeft ∧ taken.length = outTaken.length ∧
      buf ++ data = taken.flatten ++ buf' ∧ Decoding decode last later s' buf' left outLeft :=
  h.coming.drain (by rw [List.append_assoc, h.rest]) (Nat.lt_succ_self _)

/-! ## Where frames end -/

def EndsFrame (frames : List (List β)) (position length : Nat) : Prop :=
  ∃ done, done <+: frames ∧ position < done.flatten.length ∧ done.flatten.length ≤ position + length

theorem ends_frame_iff {done taken left : List (List β)} {data buf' : List β}
    (hpart : ∀ frame ∈ (taken ++ left).head?, buf.length < frame.length)
    (hpart' : ∀ frame ∈ left.head?, buf'.length < frame.length)
    (hbuf : buf ++ data = taken.flatten ++ buf') :
    EndsFrame (done ++ (taken ++ left)) (done.flatten ++ buf).length data.length ↔ taken ≠ [] := by
  have hlength := congrArg List.length hbuf
  rw [List.length_append, List.length_append] at hlength
  constructor
  · rintro ⟨front, hfront, hafter, hbefore⟩ rfl
    rw [List.nil_append] at hfront
    rw [List.length_append] at hafter hbefore
    rw [List.flatten_nil, List.length_nil, Nat.zero_add] at hlength
    obtain ⟨more, rfl⟩ | ⟨more, rfl⟩ :=
      List.prefix_or_prefix_of_prefix hfront (List.prefix_append done left)
    · -- The end is one of those before the piece.
      rw [List.flatten_append, List.length_append] at hafter
      omega
    · rw [List.prefix_append_right_inj] at hfront
      rw [List.flatten_append, List.length_append] at hafter hbefore
      cases more with
      | nil =>
        rw [List.flatten_nil, List.length_nil] at hafter
        omega
      | cons frame more =>
        obtain ⟨rest, rfl⟩ := hfront
        have hlt : buf'.length < frame.length := hpart' frame rfl
        rw [List.flatten_cons, List.length_append] at hbefore
        omega
  · intro hne
    refine ⟨done ++ taken, ⟨left, List.append_assoc ..⟩, ?_, ?_⟩
    · cases taken with
      | nil => exact absurd rfl hne
      | cons frame taken =>
        have hlt : buf.length < frame.length := hpart frame rfl
        rw [List.flatten_append, List.flatten_cons, List.length_append, List.length_append,
          List.length_append]
        omega
    · rw [List.flatten_append, List.length_append, List.length_append]
      omega

end Crabscale.Interaction.Framing
