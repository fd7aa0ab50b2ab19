import Crabscale.Control.Bus

/-!
# Coalescing on the change bus

The bus records events in a window and sends the window as one batch. `Tracks` says what the
accumulator knows of the recorded events. Each event keeps it (`Tracks.apply`), so a batch
represents its window; `bus_coalesces` is about every sequence of calls.
-/

namespace Crabscale.Control

open Rust

def ChangeEvent.node? : ChangeEvent → Option Nat
  | nodeChanged nodeId | nodeRemoved nodeId | onlineChanged nodeId _ | peerSeen nodeId =>
    some nodeId
  | policyChanged | dnsChanged | derpMapChanged => none

def onlineOf (nodeId : Nat) : ChangeEvent → Option Bool
  | .onlineChanged other online => if other = nodeId then some online else none
  | _ => none

def latestOnline (nodeId : Nat) (window : List ChangeEvent) : Option Bool :=
  lastOf (onlineOf nodeId) window

/-- An event stands in a batch, or the removal of its node in the window does, or it is an online
change and the latest one of its node does. -/
inductive Represented (window : List ChangeEvent) (batch : ChangeBatch) : ChangeEvent → Prop
  | equal {event : ChangeEvent} (h : event ∈ batch.events) : Represented window batch event
  | removed {event : ChangeEvent} {nodeId : Nat} (hnode : event.node? = some nodeId)
      (hwindow : .nodeRemoved nodeId ∈ window) (h : .nodeRemoved nodeId ∈ batch.events) :
      Represented window batch event
  | online {nodeId : Nat} {online latest : Bool}
    (hlatest : latestOnline nodeId window = some latest)
      (h : .onlineChanged nodeId latest ∈ batch.events) :
      Represented window batch (.onlineChanged nodeId online)

structure Coalesces (window : List ChangeEvent) (batch : ChangeBatch) : Prop where
  ne_nil : batch.events ≠ []
  nodup : batch.events.Nodup
  removed : ∀ nodeId, .nodeRemoved nodeId ∈ window → ∀ event ∈ batch.events,
    event.node? = some nodeId → event = .nodeRemoved nodeId
  represented : ∀ event ∈ window, Represented window batch event
  published : ∀ event ∈ batch.events, event ∈ window

/-! ## The accumulator -/

variable {event : ChangeEvent}

namespace Accumulator

def node (acc : Accumulator) (nodeId : Nat) : NodeAccumulator := (acc.nodes[nodeId]?).getD {}

theorem node_on_node (acc : Accumulator) (nodeId other : Nat)
    (f : NodeAccumulator → NodeAccumulator) :
    (acc.onNode nodeId f).node other =
      if nodeId = other then f (acc.node other) else acc.node other := by
  unfold node onNode
  rw [Std.ExtTreeMap.getElem?_alter]
  by_cases heq : nodeId = other
  · subst heq
    rw [if_pos Std.ReflCmp.compare_self, if_pos rfl]
    rfl
  · rw [if_neg (fun hcompare => heq (Std.compare_eq_iff_eq.mp hcompare)), if_neg heq]

def sharedEvents (acc : Accumulator) : List ChangeEvent :=
  (if acc.policy then [.policyChanged] else []) ++ (if acc.dns then [.dnsChanged] else []) ++
    if acc.derp then [.derpMapChanged] else []

theorem events_drain_batch (acc : Accumulator) :
    acc.drainBatch.events =
      acc.sharedEvents ++ acc.nodes.toList.flatMap fun node => nodeEvents node.1 node.2 := rfl

theorem mem_shared_events {acc : Accumulator} :
    event ∈ acc.sharedEvents ↔ (acc.policy = true ∧ event = .policyChanged) ∨
      (acc.dns = true ∧ event = .dnsChanged) ∨ (acc.derp = true ∧ event = .derpMapChanged) := by
  simp [sharedEvents]

theorem node_of_mem_shared {acc : Accumulator}
    (h : event ∈ acc.sharedEvents) :
    event.node? = none := by
  obtain ⟨-, rfl⟩ | ⟨-, rfl⟩ | ⟨-, rfl⟩ := mem_shared_events.mp h <;> rfl

theorem mem_node_events {nodeId : Nat} {node : NodeAccumulator} :
    event ∈ nodeEvents nodeId node ↔
      if node.removed then event = .nodeRemoved nodeId
      else (node.changed = true ∧ event = .nodeChanged nodeId) ∨
        (∃ online, node.online = some online ∧ event = .onlineChanged nodeId online) ∨
        (node.seen = true ∧ event = .peerSeen nodeId) := by
  unfold nodeEvents
  cases node.removed with
  | true => simp
  | false => cases node.changed <;> cases node.online <;> cases node.seen <;> simp

theorem node_of_mem_node_events {nodeId : Nat} {node : NodeAccumulator}
    (h : event ∈ nodeEvents nodeId node) : event.node? = some nodeId := by
  rw [mem_node_events] at h
  split at h
  · rw [h]
    rfl
  · obtain ⟨-, rfl⟩ | ⟨online, -, rfl⟩ | ⟨-, rfl⟩ := h <;> rfl

theorem nodup_node_events (nodeId : Nat) (node : NodeAccumulator) :
    (nodeEvents nodeId node).Nodup := by
  unfold nodeEvents
  cases node.removed <;> cases node.changed <;> cases node.online <;> cases node.seen <;> simp

theorem nodup_shared_events (acc : Accumulator) : acc.sharedEvents.Nodup := by
  unfold sharedEvents
  cases acc.policy <;> cases acc.dns <;> cases acc.derp <;> decide

theorem mem_drain_batch_node {acc : Accumulator} {nodeId : Nat}
    (hnode : event.node? = some nodeId) :
    event ∈ acc.drainBatch.events ↔ event ∈ nodeEvents nodeId (acc.node nodeId) := by
  have hshared : event ∉ acc.sharedEvents := by
    intro hmem
    rw [node_of_mem_shared hmem] at hnode
    cases hnode
  rw [events_drain_batch, List.mem_append, or_iff_right hshared, List.mem_flatMap]
  constructor
  · rintro ⟨⟨other, node⟩, hmem, hevent⟩
    cases (node_of_mem_node_events hevent).symm.trans hnode
    rw [Std.ExtTreeMap.mem_toList_iff_getElem?_eq_some] at hmem
    unfold Accumulator.node
    rw [hmem]
    exact hevent
  · intro hevent
    unfold Accumulator.node at hevent
    cases hfound : acc.nodes[nodeId]? with
    | none =>
      rw [hfound] at hevent
      cases hevent
    | some node =>
      rw [hfound] at hevent
      exact ⟨(nodeId, node), Std.ExtTreeMap.mem_toList_iff_getElem?_eq_some.mpr hfound, hevent⟩

theorem mem_drain_batch_shared {acc : Accumulator}
    (hnode : event.node? = none) :
    event ∈ acc.drainBatch.events ↔ event ∈ acc.sharedEvents := by
  rw [events_drain_batch, List.mem_append, or_iff_left]
  rw [List.mem_flatMap]
  rintro ⟨node, -, hevent⟩
  cases (node_of_mem_node_events hevent).symm.trans hnode

theorem nodup_drain_batch (acc : Accumulator) : acc.drainBatch.events.Nodup := by
  rw [events_drain_batch, List.nodup_append]
  refine ⟨nodup_shared_events acc,
    List.nodup_flatMap.mpr ⟨fun node _ => nodup_node_events _ _, ?_⟩, ?_⟩
  · refine (List.pairwise_map.mp (nodup_keys_toList acc.nodes)).imp fun hne => ?_
    intro event hfirst hsecond
    have hsame := (node_of_mem_node_events hfirst).symm.trans (node_of_mem_node_events hsecond)
    exact hne (Option.some.inj hsame)
  · rintro event hshared other hnode rfl
    obtain ⟨node, -, hevent⟩ := List.mem_flatMap.mp hnode
    cases (node_of_mem_shared hshared).symm.trans (node_of_mem_node_events hevent)

end Accumulator

/-! ## What a window comes to -/

structure TracksNode (nodeId : Nat) (window : List ChangeEvent) (node : NodeAccumulator) :
    Prop where
  removed : node.removed = true ↔ .nodeRemoved nodeId ∈ window
  changed : node.removed = false → (node.changed = true ↔ .nodeChanged nodeId ∈ window)
  seen : node.removed = false → (node.seen = true ↔ .peerSeen nodeId ∈ window)
  online : node.removed = false → node.online = latestOnline nodeId window

structure Tracks (window : List ChangeEvent) (acc : Accumulator) : Prop where
  policy : acc.policy = true ↔ .policyChanged ∈ window
  dns : acc.dns = true ↔ .dnsChanged ∈ window
  derp : acc.derp = true ↔ .derpMapChanged ∈ window
  node : ∀ nodeId, TracksNode nodeId window (acc.node nodeId)

theorem tracks_nil : Tracks [] {} := by
  refine ⟨by simp, by simp, by simp, fun nodeId => ?_⟩
  have hnode : Accumulator.node {} nodeId = {} := by
    simp [Accumulator.node]
  rw [hnode]
  exact ⟨by simp, by simp, by simp, fun _ => rfl⟩

section Window

variable {window : List ChangeEvent} {acc : Accumulator} {nodeId : Nat} {node : NodeAccumulator}

theorem TracksNode.other (h : TracksNode nodeId window node)
    (hevent : event.node? ≠ some nodeId) : TracksNode nodeId (window ++ [event]) node := by
  have hmem {other : ChangeEvent} (hother : other.node? = some nodeId) :
      other ∈ window ++ [event] ↔ other ∈ window := by
    rw [List.mem_append, List.mem_singleton, or_iff_left]
    rintro rfl
    exact hevent hother
  have honline : onlineOf nodeId event = none := by
    cases event with
    | onlineChanged other online => exact if_neg fun heq => hevent (congrArg some heq)
    | _ => rfl
  refine ⟨?_, fun hkept => ?_, fun hkept => ?_, fun hkept => ?_⟩
  · rw [hmem rfl]
    exact h.removed
  · rw [hmem rfl]
    exact h.changed hkept
  · rw [hmem rfl]
    exact h.seen hkept
  · rw [latestOnline, last_of_append, honline, Option.none_or]
    exact h.online hkept

theorem TracksNode.hidden (h : TracksNode nodeId window node) (hremoved : node.removed = true)
    (event : ChangeEvent) : TracksNode nodeId (window ++ [event]) node := by
  have hmem := List.mem_append_left [event] (h.removed.mp hremoved)
  refine ⟨iff_of_true hremoved hmem, ?_, ?_, ?_⟩ <;>
    (intro hkept; rw [hremoved] at hkept; cases hkept)

theorem TracksNode.remove (window : List ChangeEvent) (nodeId : Nat) :
    TracksNode nodeId (window ++ [.nodeRemoved nodeId])
      { removed := true, changed := false, seen := false, online := none } :=
  ⟨iff_of_true rfl (by simp), fun hkept => (by cases hkept), fun hkept => (by cases hkept),
    fun hkept => (by cases hkept)⟩

theorem TracksNode.change (h : TracksNode nodeId window node) (hkept : node.removed = false) :
    TracksNode nodeId (window ++ [.nodeChanged nodeId]) { node with changed := true } := by
  refine ⟨?_, fun _ => iff_of_true rfl (by simp), fun _ => ?_, fun _ => ?_⟩
  · simpa using h.removed
  · simpa using h.seen hkept
  · rw [latestOnline, last_of_append]
    exact h.online hkept

theorem TracksNode.see (h : TracksNode nodeId window node) (hkept : node.removed = false) :
    TracksNode nodeId (window ++ [.peerSeen nodeId]) { node with seen := true } := by
  refine ⟨?_, fun _ => ?_, fun _ => iff_of_true rfl (by simp), fun _ => ?_⟩
  · simpa using h.removed
  · simpa using h.changed hkept
  · rw [latestOnline, last_of_append]
    exact h.online hkept

theorem TracksNode.setOnline (h : TracksNode nodeId window node) (hkept : node.removed = false)
    (online : Bool) :
    TracksNode nodeId (window ++ [.onlineChanged nodeId online])
      { node with online := some online } := by
  refine ⟨?_, fun _ => ?_, fun _ => ?_, fun _ => ?_⟩
  · simpa using h.removed
  · simpa using h.changed hkept
  · simpa using h.seen hkept
  · rw [latestOnline, last_of_append, onlineOf, if_pos rfl]
    rfl

theorem Tracks.on_node (h : Tracks window acc)
    (hevent : event.node? = some nodeId) {f : NodeAccumulator → NodeAccumulator}
    (hf : TracksNode nodeId (window ++ [event]) (f (acc.node nodeId))) :
    Tracks (window ++ [event]) (acc.onNode nodeId f) := by
  have hmem {other : ChangeEvent} (hother : other.node? = none) :
      other ∈ window ++ [event] ↔ other ∈ window := by
    rw [List.mem_append, List.mem_singleton, or_iff_left]
    rintro rfl
    cases hother.symm.trans hevent
  refine ⟨h.policy.trans (hmem rfl).symm, h.dns.trans (hmem rfl).symm, h.derp.trans (hmem rfl).symm,
    fun other => ?_⟩
  rw [Accumulator.node_on_node]
  split
  case isTrue heq =>
    subst heq
    exact hf
  case isFalse hne =>
    refine (h.node other).other fun hother => hne ?_
    exact Option.some.inj (hevent.symm.trans hother)

theorem Tracks.on_kept (h : Tracks window acc)
    (hevent : event.node? = some nodeId) {f : NodeAccumulator → NodeAccumulator}
    (hf : (acc.node nodeId).removed = false →
      TracksNode nodeId (window ++ [event]) (f (acc.node nodeId))) :
    Tracks (window ++ [event])
      (acc.onNode nodeId fun node => if node.removed then node else f node) := by
  refine h.on_node hevent ?_
  split
  case isTrue hremoved => exact (h.node nodeId).hidden hremoved _
  case isFalse hkept => exact hf (Bool.eq_false_of_not_eq_true hkept)

theorem Tracks.apply (h : Tracks window acc) (event : ChangeEvent) :
    Tracks (window ++ [event]) (acc.apply event) := by
  cases event with
  | nodeChanged nodeId =>
    rw [Accumulator.apply]
    exact h.on_kept rfl (h.node nodeId).change
  | nodeRemoved nodeId =>
    rw [Accumulator.apply]
    exact h.on_node rfl (.remove window nodeId)
  | onlineChanged nodeId online =>
    rw [Accumulator.apply]
    exact h.on_kept rfl fun hkept => (h.node nodeId).setOnline hkept online
  | peerSeen nodeId =>
    rw [Accumulator.apply]
    exact h.on_kept rfl (h.node nodeId).see
  | policyChanged =>
    rw [Accumulator.apply]
    refine ⟨iff_of_true rfl (by simp), ?_, ?_, fun nodeId => ?_⟩
    · simpa using h.dns
    · simpa using h.derp
    · exact (h.node nodeId).other (by simp [ChangeEvent.node?])
  | dnsChanged =>
    rw [Accumulator.apply]
    refine ⟨?_, iff_of_true rfl (by simp), ?_, fun nodeId => ?_⟩
    · simpa using h.policy
    · simpa using h.derp
    · exact (h.node nodeId).other (by simp [ChangeEvent.node?])
  | derpMapChanged =>
    rw [Accumulator.apply]
    refine ⟨?_, ?_, iff_of_true rfl (by simp), fun nodeId => ?_⟩
    · simpa using h.policy
    · simpa using h.dns
    · exact (h.node nodeId).other (by simp [ChangeEvent.node?])

theorem mem_of_latest_online {online : Bool} (h : latestOnline nodeId window = some online) :
    .onlineChanged nodeId online ∈ window := by
  obtain ⟨event, hmem, hevent⟩ := exists_mem_of_last_of h
  cases event with
  | onlineChanged other value =>
    rw [onlineOf] at hevent
    split at hevent
    case isTrue heq =>
      cases hevent
      subst heq
      exact hmem
    case isFalse => cases hevent
  | _ => cases hevent

theorem Tracks.published (h : Tracks window acc) :
    ∀ event ∈ acc.drainBatch.events, event ∈ window := by
  intro event hevent
  cases hnode : event.node? with
  | none =>
    rw [Accumulator.mem_drain_batch_shared hnode, Accumulator.mem_shared_events] at hevent
    obtain ⟨hset, rfl⟩ | ⟨hset, rfl⟩ | ⟨hset, rfl⟩ := hevent
    · exact h.policy.mp hset
    · exact h.dns.mp hset
    · exact h.derp.mp hset
  | some nodeId =>
    rw [Accumulator.mem_drain_batch_node hnode, Accumulator.mem_node_events] at hevent
    split at hevent
    case isTrue hremoved =>
      rw [hevent]
      exact (h.node nodeId).removed.mp hremoved
    case isFalse hkept =>
      have hkept := Bool.eq_false_of_not_eq_true hkept
      obtain ⟨hset, rfl⟩ | ⟨online, hset, rfl⟩ | ⟨hset, rfl⟩ := hevent
      · exact ((h.node nodeId).changed hkept).mp hset
      · exact mem_of_latest_online (((h.node nodeId).online hkept).symm.trans hset)
      · exact ((h.node nodeId).seen hkept).mp hset

theorem Tracks.removed (h : Tracks window acc) (hremoved : .nodeRemoved nodeId ∈ window)
    (hnode : event.node? = some nodeId) :
    event ∈ acc.drainBatch.events ↔ event = .nodeRemoved nodeId := by
  rw [Accumulator.mem_drain_batch_node hnode, Accumulator.mem_node_events,
    if_pos ((h.node nodeId).removed.mpr hremoved)]

theorem Tracks.represented (h : Tracks window acc) :
    ∀ event ∈ window, Represented window acc.drainBatch event := by
  intro event hevent
  cases hnode : event.node? with
  | none =>
    refine .equal ((Accumulator.mem_drain_batch_shared hnode).mpr
      (Accumulator.mem_shared_events.mpr ?_))
    cases event with
    | policyChanged => exact .inl ⟨h.policy.mpr hevent, rfl⟩
    | dnsChanged => exact .inr (.inl ⟨h.dns.mpr hevent, rfl⟩)
    | derpMapChanged => exact .inr (.inr ⟨h.derp.mpr hevent, rfl⟩)
    | _ => cases hnode
  | some nodeId =>
    by_cases hremoved : .nodeRemoved nodeId ∈ window
    · exact .removed hnode hremoved ((h.removed hremoved rfl).mpr rfl)
    · have hkept : (acc.node nodeId).removed = false :=
        Bool.eq_false_of_not_eq_true fun hset => hremoved ((h.node nodeId).removed.mp hset)
      have hmem {other : ChangeEvent} (hother : other.node? = some nodeId) :
          other ∈ acc.drainBatch.events ↔ _ :=
        (Accumulator.mem_drain_batch_node hother).trans
          (Accumulator.mem_node_events.trans (iff_of_eq (if_neg (Bool.eq_false_iff.mp hkept))))
      cases event with
      | nodeChanged other =>
        cases hnode
        exact .equal ((hmem rfl).mpr (.inl ⟨((h.node nodeId).changed hkept).mpr hevent, rfl⟩))
      | nodeRemoved other =>
        cases hnode
        exact absurd hevent hremoved
      | onlineChanged other online =>
        cases hnode
        have hvalue : onlineOf nodeId (.onlineChanged nodeId online) = some online := if_pos rfl
        obtain ⟨latest, hlatest⟩ := last_of_of_mem hevent hvalue
        exact .online hlatest
          ((hmem rfl).mpr
            (.inr (.inl ⟨latest, ((h.node nodeId).online hkept).trans hlatest, rfl⟩)))
      | peerSeen other =>
        cases hnode
        exact .equal
          ((hmem rfl).mpr (.inr (.inr ⟨((h.node nodeId).seen hkept).mpr hevent, rfl⟩)))
      | policyChanged => cases hnode
      | dnsChanged => cases hnode
      | derpMapChanged => cases hnode

theorem Tracks.ne_nil (h : Tracks window acc) (hwindow : window ≠ []) :
    acc.drainBatch.events ≠ [] := by
  obtain ⟨event, hevent⟩ := List.exists_mem_of_ne_nil window hwindow
  cases h.represented event hevent with
  | equal hmem => exact List.ne_nil_of_mem hmem
  | removed _ _ hmem => exact List.ne_nil_of_mem hmem
  | online _ hmem => exact List.ne_nil_of_mem hmem

theorem Tracks.coalesces (h : Tracks window acc) (hwindow : window ≠ []) :
    Coalesces window acc.drainBatch where
  ne_nil := h.ne_nil hwindow
  nodup := acc.nodup_drain_batch
  removed _ hremoved _ hevent hnode := (h.removed hremoved hnode).mp hevent
  represented := h.represented
  published := h.published

end Window

/-! ## All calls -/

inductive BusCall where
  | publish (event : ChangeEvent)
  | flush
  deriving DecidableEq

def BusCall.published : BusCall → List ChangeEvent
  | publish event => [event]
  | flush => []

def ChangeBus.make (bus : ChangeBus) : BusCall → ChangeBus
  | .publish event => bus.publish event
  | .flush => bus.flush

/-- A bus with the events that were published since its last batch, and for each batch those that
were published since the one before. -/
structure BusHistory where
  bus : ChangeBus
  window : List ChangeEvent := []
  past : List (List ChangeEvent) := []

def BusHistory.make (history : BusHistory) (call : BusCall) : BusHistory :=
  let bus := history.bus.make call
  let window := history.window ++ call.published
  if bus.sent.length = history.bus.sent.length then { history with bus, window }
  else { bus, window := [], past := history.past ++ [window] }

def BusHistory.run (history : BusHistory) (calls : List BusCall) : BusHistory :=
  calls.foldl BusHistory.make history

/-- The window is what the accumulator knows of, and each batch is what its window came to. -/
structure BusHistory.Recorded (maxEvents : Nat) (history : BusHistory) : Prop where
  maxEvents : history.bus.maxEvents = maxEvents
  tracks : Tracks history.window history.bus.accumulator
  past : List.Forall₂ Coalesces history.past history.bus.sent

section Calls

variable {bus : ChangeBus} {window : List ChangeEvent} {past : List (List ChangeEvent)}
  {maxEvents : Nat} {history : BusHistory}

theorem accumulator_flush (bus : ChangeBus) : bus.flush.accumulator = {} := by
  unfold ChangeBus.flush ChangeBus.broadcast
  split <;> rfl

theorem max_events_flush (bus : ChangeBus) : bus.flush.maxEvents = bus.maxEvents := by
  unfold ChangeBus.flush ChangeBus.broadcast
  split <;> rfl

theorem sent_flush_nil (h : Tracks [] bus.accumulator) : bus.flush.sent = bus.sent := by
  have hnone : bus.accumulator.drainBatch.events = [] :=
    List.eq_nil_iff_forall_not_mem.mpr fun event hevent =>
      List.not_mem_nil (h.published event hevent)
  rw [ChangeBus.sent_flush, if_pos hnone, List.append_nil]

theorem sent_flush_window (h : Tracks window bus.accumulator) (hwindow : window ≠ []) :
    bus.flush.sent = bus.sent ++ [bus.accumulator.drainBatch] := by
  rw [ChangeBus.sent_flush, if_neg (h.ne_nil hwindow)]

def afterFlush (bus : ChangeBus) (window : List ChangeEvent) (past : List (List ChangeEvent)) :
    BusHistory :=
  if bus.flush.sent.length = bus.sent.length then { bus := bus.flush, window, past }
  else { bus := bus.flush, window := [], past := past ++ [window] }

theorem recorded_after_flush (hmax : bus.maxEvents = maxEvents)
    (htracks : Tracks window bus.accumulator) (hpast : List.Forall₂ Coalesces past bus.sent) :
    (afterFlush bus window past).Recorded maxEvents ∧ (afterFlush bus window past).window = [] := by
  have hmax' := (max_events_flush bus).trans hmax
  have hnone : Tracks [] bus.flush.accumulator := by
    rw [accumulator_flush]
    exact tracks_nil
  by_cases hwindow : window = []
  · subst hwindow
    have hsent := sent_flush_nil htracks
    rw [afterFlush, if_pos (congrArg List.length hsent)]
    refine ⟨⟨hmax', hnone, ?_⟩, rfl⟩
    rw [hsent]
    exact hpast
  · have hsent := sent_flush_window htracks hwindow
    have hlength : ¬bus.flush.sent.length = bus.sent.length := by
      rw [hsent, List.length_append]
      exact Nat.succ_ne_self _
    rw [afterFlush, if_neg hlength]
    refine ⟨⟨hmax', hnone, ?_⟩, rfl⟩
    rw [hsent]
    exact List.rel_append hpast (.cons (htracks.coalesces hwindow) .nil)

theorem BusHistory.make_flush (history : BusHistory) :
    history.make .flush = afterFlush history.bus history.window history.past := by
  unfold BusHistory.make BusCall.published
  rw [List.append_nil]
  rfl

def ChangeBus.record (bus : ChangeBus) (event : ChangeEvent) : ChangeBus :=
  { bus with accumulator := bus.accumulator.apply event }

theorem BusHistory.make_publish (history : BusHistory) (event : ChangeEvent) :
    history.make (.publish event) =
      if (history.bus.record event).accumulator.count ≥ history.bus.maxEvents then
        afterFlush (history.bus.record event) (history.window ++ [event]) history.past
      else
        { bus := history.bus.record event
          window := history.window ++ [event]
          past := history.past } := by
  by_cases hfull : (history.bus.record event).accumulator.count ≥ history.bus.maxEvents
  · have hbus : history.bus.make (.publish event) = (history.bus.record event).flush := if_pos hfull
    rw [if_pos hfull, BusHistory.make, hbus]
    rfl
  · have hbus : history.bus.make (.publish event) = history.bus.record event := if_neg hfull
    rw [if_neg hfull, BusHistory.make, hbus]
    exact if_pos rfl

theorem BusHistory.Recorded.make (h : history.Recorded maxEvents) (call : BusCall) :
    (history.make call).Recorded maxEvents := by
  cases call with
  | flush =>
    rw [BusHistory.make_flush]
    exact (recorded_after_flush h.maxEvents h.tracks h.past).1
  | publish event =>
    have htracks := h.tracks.apply event
    rw [BusHistory.make_publish]
    split
    case isTrue =>
      have hmax : (history.bus.record event).maxEvents = maxEvents := h.maxEvents
      exact (recorded_after_flush hmax htracks h.past).1
    case isFalse => exact ⟨h.maxEvents, htracks, h.past⟩

theorem BusHistory.Recorded.count_publish (h : history.Recorded maxEvents) (hmax : 1 ≤ maxEvents)
    (event : ChangeEvent) :
    (history.make (.publish event)).bus.accumulator.count < maxEvents := by
  have hempty : ({} : Accumulator).count = 0 := by decide
  rw [BusHistory.make_publish]
  split
  case isTrue =>
    have hbus : (afterFlush (history.bus.record event) (history.window ++ [event])
        history.past).bus = (history.bus.record event).flush := by
      unfold afterFlush
      split <;> rfl
    rw [hbus, accumulator_flush, hempty]
    exact hmax
  case isFalse hroom =>
    rw [h.maxEvents] at hroom
    exact Nat.lt_of_not_le hroom

theorem published_make (history : BusHistory) (call : BusCall) :
    (history.make call).past.flatten ++ (history.make call).window =
      history.past.flatten ++ history.window ++ call.published := by
  unfold BusHistory.make
  dsimp only
  split <;> simp

theorem published_run (history : BusHistory) (calls : List BusCall) :
    (history.run calls).past.flatten ++ (history.run calls).window =
      history.past.flatten ++ history.window ++ calls.flatMap BusCall.published := by
  induction calls generalizing history with
  | nil => simp [BusHistory.run]
  | cons call calls ih =>
    rw [List.flatMap_cons, ← List.append_assoc, ← published_make]
    exact ih (history.make call)

theorem BusHistory.Recorded.run (h : history.Recorded maxEvents) (calls : List BusCall) :
    (history.run calls).Recorded maxEvents := by
  induction calls generalizing history with
  | nil => exact h
  | cons call calls ih => exact ih (h.make call)

end Calls

/-- After any calls of a new bus: the windows of the batches and the current one are the events that
were published, in their order. Each batch is what its window came to. A flush would leave nothing
waiting, and a publish leaves room in the window. -/
theorem bus_coalesces (maxEvents : Nat) (hmax : 1 ≤ maxEvents) (calls : List BusCall) :
    let history := BusHistory.run { bus := { maxEvents } } calls
    history.past.flatten ++ history.window = calls.flatMap BusCall.published ∧
      List.Forall₂ Coalesces history.past history.bus.sent ∧
      (history.make .flush).window = [] ∧
      ∀ event, (history.make (.publish event)).bus.accumulator.count < maxEvents := by
  have hstart : BusHistory.Recorded maxEvents { bus := { maxEvents } } := ⟨rfl, tracks_nil, .nil⟩
  have hrun := hstart.run calls
  refine ⟨published_run _ calls, hrun.past, ?_, hrun.count_publish hmax⟩
  rw [BusHistory.make_flush]
  exact (recorded_after_flush hrun.maxEvents hrun.tracks hrun.past).2

/-- A node is seen and goes offline, then is removed; the window holds two events. -/
theorem bus_coalesces_removed :
    let history := BusHistory.run { bus := { maxEvents := 2 } }
      [.publish (.peerSeen 1), .publish (.nodeRemoved 1), .publish (.onlineChanged 1 false),
        .publish .dnsChanged, .publish (.nodeChanged 2)]
    history.past = [[.peerSeen 1, .nodeRemoved 1, .onlineChanged 1 false, .dnsChanged]] ∧
      history.bus.sent = [{ events := [.dnsChanged, .nodeRemoved 1] }] ∧
      List.Forall₂ Coalesces history.past history.bus.sent := by
  refine ⟨by decide +kernel, by decide +kernel, ?_⟩
  exact (bus_coalesces 2 (by decide) _).2.1

end Crabscale.Control
