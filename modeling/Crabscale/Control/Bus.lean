import Crabscale.Control.Registry
import Crabscale.Interaction.Channel

/-!
# No event is lost on the bus

An event names a part of a session (peers, DNS or DERP map) when a batch that carries it makes the
session look at the part again. Coalescing never drops the last event that names a part
(`names_apply`), so from its publication until a receiver reads it, the part is announced to that
receiver (`Announced`): by the current window or by an unread batch.
-/

namespace Crabscale.Control

open Rust Interaction

inductive Part where
  | peers
  | dns
  | derp
  deriving DecidableEq

def Part.names : Part → ChangeEvent → Bool
  | peers, event => ChangeBatch.peerEvent event
  | dns, event => event == .dnsChanged
  | derp, event => event == .derpMapChanged

def ChangeBatch.names (batch : ChangeBatch) (part : Part) : Bool := batch.events.any part.names

/-! ## Coalescing -/

namespace Accumulator

theorem names_node_events (nodeId : Nat) (node : NodeAccumulator) (part : Part) :
    (nodeEvents nodeId node).any part.names = (part == .peers && nodeEvents nodeId node != []) := by
  unfold nodeEvents
  cases hremoved : node.removed with
  | true => cases part <;> rfl
  | false =>
    cases node.changed <;> cases node.online <;> cases node.seen <;> cases part <;> rfl

def HasNodeEvent (acc : Accumulator) : Prop :=
  ∃ (nodeId : Nat) (node : NodeAccumulator), acc.nodes[nodeId]? = some node ∧
    nodeEvents nodeId node ≠ []

theorem names_drain_batch (acc : Accumulator) (part : Part) :
    acc.drainBatch.names part = true ↔
      match part with
      | .peers => acc.policy = true ∨ acc.HasNodeEvent
      | .dns => acc.dns = true
      | .derp => acc.derp = true := by
  have hnodes : (acc.nodes.toList.flatMap fun node => nodeEvents node.1 node.2).any part.names =
      true ↔ part = .peers ∧ acc.HasNodeEvent := by
    simp only [List.any_flatMap, names_node_events, List.any_eq_true, Bool.and_eq_true, beq_iff_eq,
      bne_iff_ne, HasNodeEvent, ← Std.ExtTreeMap.mem_toList_iff_getElem?_eq_some]
    constructor
    · rintro ⟨⟨nodeId, node⟩, hmem, hpart, hevents⟩
      exact ⟨hpart, nodeId, node, hmem, hevents⟩
    · rintro ⟨hpart, nodeId, node, hmem, hevents⟩
      exact ⟨(nodeId, node), hmem, hpart, hevents⟩
  unfold ChangeBatch.names drainBatch
  simp only [List.any_append, Bool.or_eq_true, hnodes]
  cases part <;> cases acc.policy <;> cases acc.dns <;> cases acc.derp <;>
    simp [Part.names, ChangeBatch.peerEvent]

theorem has_node_event_on_node {acc : Accumulator} {nodeId : Nat}
    {f : NodeAccumulator → NodeAccumulator} (hf : ∀ node, nodeEvents nodeId (f node) ≠ []) :
    (acc.onNode nodeId f).HasNodeEvent := by
  refine ⟨nodeId, f ((acc.nodes[nodeId]?).getD {}), ?_, hf _⟩
  simp [onNode]

theorem names_apply (acc : Accumulator) (event : ChangeEvent) (part : Part)
    (h : part.names event = true ∨ acc.drainBatch.names part = true) :
    (acc.apply event).drainBatch.names part = true := by
  rw [names_drain_batch] at h ⊢
  cases event with
  | policyChanged =>
    cases part with
    | peers => exact .inl rfl
    | dns => exact h.resolve_left (by decide)
    | derp => exact h.resolve_left (by decide)
  | dnsChanged =>
    cases part with
    | peers => exact h.resolve_left (by decide)
    | dns => rfl
    | derp => exact h.resolve_left (by decide)
  | derpMapChanged =>
    cases part with
    | peers => exact h.resolve_left (by decide)
    | dns => exact h.resolve_left (by decide)
    | derp => rfl
  | nodeChanged | onlineChanged | peerSeen =>
    cases part with
    | peers =>
      refine .inr (has_node_event_on_node fun node => ?_)
      cases hremoved : node.removed <;> simp [nodeEvents, hremoved]
    | dns => exact h.resolve_left (by simp [Part.names])
    | derp => exact h.resolve_left (by simp [Part.names])
  | nodeRemoved nodeId =>
    cases part with
    | peers => exact .inr (has_node_event_on_node fun node => by simp [nodeEvents])
    | dns => exact h.resolve_left (by simp [Part.names])
    | derp => exact h.resolve_left (by simp [Part.names])

end Accumulator

/-! ## Receivers -/

namespace ChangeBus

variable {bus : ChangeBus} {position : Nat} {part : Part}

/-- The part is announced to the receiver at a position: in the current window, or in a batch that
it has not read. -/
def Announced (bus : ChangeBus) (position : Nat) (part : Part) : Prop :=
  bus.accumulator.drainBatch.names part = true ∨
    Broadcast.Unread bus.sent position fun batch => batch.names part = true

theorem sent_flush (bus : ChangeBus) :
    bus.flush.sent = bus.sent ++
      if bus.accumulator.drainBatch.events = [] then [] else [bus.accumulator.drainBatch] := by
  unfold flush broadcast
  split <;> simp

theorem Announced.flush (h : bus.Announced position part) (hposition : position ≤ bus.sent.length) :
    bus.flush.Announced position part := by
  right
  rw [sent_flush]
  obtain hwindow | hunread := h
  · have hne : bus.accumulator.drainBatch.events ≠ [] := by
      intro hnil
      simp [ChangeBatch.names, hnil] at hwindow
    rw [if_neg hne]
    exact Broadcast.unread_sent hposition (List.mem_singleton.mpr rfl) hwindow
  · exact hunread.append _

theorem announced_publish {event : ChangeEvent}
    (h : part.names event = true ∨ bus.Announced position part)
    (hposition : position ≤ bus.sent.length) : (bus.publish event).Announced position part := by
  have hrecorded : Announced { bus with accumulator := bus.accumulator.apply event } position
      part := by
    obtain hnames | hwindow | hunread := h
    · exact .inl (Accumulator.names_apply _ _ _ (.inl hnames))
    · exact .inl (Accumulator.names_apply _ _ _ (.inr hwindow))
    · exact .inr hunread
  unfold publish
  dsimp only
  split
  · exact hrecorded.flush hposition
  · exact hrecorded

theorem length_sent_flush (bus : ChangeBus) : bus.sent.length ≤ bus.flush.sent.length := by
  rw [sent_flush, List.length_append]
  exact Nat.le_add_right _ _

theorem length_sent_publish (bus : ChangeBus) (event : ChangeEvent) :
    bus.sent.length ≤ (bus.publish event).sent.length := by
  unfold publish
  dsimp only
  split
  · exact length_sent_flush { bus with accumulator := bus.accumulator.apply event }
  · exact Nat.le_refl _

theorem not_announced (hwindow : bus.accumulator.drainBatch.events = [])
    (hread : bus.sent.length ≤ position) : ¬bus.Announced position part := by
  rintro (hnames | hunread)
  · simp [ChangeBatch.names, hwindow] at hnames
  · exact Broadcast.not_unread_of_length_le hread hunread

end ChangeBus

end Crabscale.Control
