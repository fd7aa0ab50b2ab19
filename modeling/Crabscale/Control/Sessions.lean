import Crabscale.Control.Registry

/-!
# The session registry

`NodeSound` is what holds of one node between the calls: its live count is the number of its open
sessions, it is online while there is one, a deadline is set only when the last one was closed, and
its presence has gone on and off in turn. The three operations on a node keep it, whatever the times
are; `registry_sound` is about all calls.
-/

namespace Crabscale.Control

open Rust SessionRegistry

inductive RegistryCall where
  | openSession (nodeId : Nat) (ephemeral : Bool) (now : Int)
  | closeSession (sessionId : Nat) (now : Int)
  | tick (now : Int)
  deriving DecidableEq

def RegistryCall.now : RegistryCall → Int
  | openSession _ _ now | closeSession _ now | tick now => now

namespace SessionRegistry

def sessionsOf (registry : SessionRegistry) (nodeId : Nat) : List Nat :=
  registry.sessionToNode.keys.filter fun sessionId =>
    registry.sessionToNode[sessionId]? = some nodeId

def emits (registry : SessionRegistry) : RegistryCall → List SessionEvent
  | .openSession nodeId ephemeral now => (registry.openSession nodeId ephemeral now).1.2
  | .closeSession .. => []
  | .tick now => (registry.tick now).1

def make (registry : SessionRegistry) : RegistryCall → SessionRegistry
  | .openSession nodeId ephemeral now => (registry.openSession nodeId ephemeral now).2
  | .closeSession sessionId now => (registry.closeSession sessionId now).2
  | .tick now => (registry.tick now).2

end SessionRegistry

/-- A registry with the events that it emitted, and the time at which a session of each node was
last closed. -/
structure RegistryHistory where
  registry : SessionRegistry
  events : List SessionEvent := []
  lastClosed : Nat → Option Int := fun _ => none

def RegistryHistory.make (history : RegistryHistory) (call : RegistryCall) : RegistryHistory where
  registry := history.registry.make call
  events := history.events ++ history.registry.emits call
  lastClosed nodeId :=
    match call with
    | .closeSession sessionId now =>
      if history.registry.sessionToNode[sessionId]? = some nodeId then some now
      else history.lastClosed nodeId
    | .openSession .. | .tick _ => history.lastClosed nodeId

def RegistryHistory.run (history : RegistryHistory) (calls : List RegistryCall) : RegistryHistory :=
  calls.foldl RegistryHistory.make history

/-! ## Presence -/

def transition (nodeId : Nat) : SessionEvent → Option Bool
  | .online other => if other = nodeId then some true else none
  | .offline other => if other = nodeId then some false else none
  | .ephemeralExpired _ => none

def transitions (nodeId : Nat) (events : List SessionEvent) : List Bool :=
  events.filterMap (transition nodeId)

inductive Switches : Bool → List Bool → Bool → Prop
  | nil (state : Bool) : Switches state [] state
  | cons {state last : Bool} {rest : List Bool} (h : Switches (!state) rest last) :
      Switches state ((!state) :: rest) last

theorem Switches.append {first middle last : Bool} {changes more : List Bool}
    (h : Switches first changes middle) (hmore : Switches middle more last) :
    Switches first (changes ++ more) last := by
  induction h with
  | nil => exact hmore
  | cons _ ih => exact .cons (ih hmore)

theorem Switches.is_chain {first last : Bool} {changes : List Bool}
    (h : Switches first changes last) : List.IsChain (· ≠ ·) (first :: changes) := by
  induction h with
  | nil => exact .singleton _
  | cons _ ih => exact .cons_cons (Bool.not_ne_self _).symm ih

/-! ## One node -/

/-- What holds of a node: how many sessions it has and when one was last closed, how its presence
changed, and its entry. -/
structure NodeSound (grace : Int) (lastClosed : Option Int) (sessions : Nat) (changes : List Bool)
    (entry : Option NodeSessions) : Prop where
  live : (entry.map NodeSessions.live).getD 0 = sessions
  online : ∀ node ∈ entry, 0 < node.live → node.online = true
  deadline : ∀ node ∈ entry, ∀ deadline ∈ node.offlineAt,
    node.live = 0 ∧ ∃ time, lastClosed = some time ∧ deadline = time + grace
  switches : Switches false changes ((entry.map NodeSessions.online).getD false)

variable {node : NodeSessions}

section Node

variable {grace now : Int} {lastClosed : Option Int} {sessions nodeId : Nat} {changes : List Bool}
  {entry : Option NodeSessions} {node : NodeSessions}

theorem node_sound_none : NodeSound grace none 0 [] none :=
  ⟨rfl, fun _ h => (by cases h), fun _ h => (by cases h), .nil false⟩

theorem online_open_node (nodeId : Nat) (now : Int) (honline : 0 < node.live → node.online = true) :
    (openNode nodeId node now).1.online = true := by
  unfold openNode
  split
  case isTrue => rfl
  case isFalse hlive => exact honline (Nat.pos_of_ne_zero hlive)

theorem switches_open_node (nodeId : Nat) (now : Int)
    (honline : 0 < node.live → node.online = true) :
    Switches node.online (transitions nodeId (openNode nodeId node now).2)
      true := by
  unfold openNode
  split
  case isTrue =>
    cases node.online with
    | false =>
      simp only [Bool.and_false, Bool.false_and, Bool.false_eq_true, if_false, List.nil_append,
        transitions, transition, List.filterMap_cons, if_true, List.filterMap_nil]
      exact .cons (.nil _)
    | true =>
      cases node.offlineAt.any fun at_ => at_ ≤ now with
      | false => exact .nil true
      | true =>
        simp only [Bool.and_true, if_true, Bool.not_true, Bool.and_false, Bool.false_eq_true,
          if_false, transitions, transition, List.filterMap_cons, List.filterMap_nil,
          List.cons_append, List.nil_append]
        exact .cons (.cons (.nil _))
  case isFalse hlive =>
    rw [honline (Nat.pos_of_ne_zero hlive)]
    exact .nil true

theorem live_open_node (nodeId : Nat) (node : NodeSessions) (now : Int) :
    (openNode nodeId node now).1.live = node.live + 1 := by
  unfold openNode
  split
  case isTrue hlive => rw [hlive]
  case isFalse => rfl

theorem offline_at_open_node (nodeId : Nat) (node : NodeSessions) (now : Int)
    (hdeadline : node.live ≠ 0 → node.offlineAt = none) :
    (openNode nodeId node now).1.offlineAt = none := by
  unfold openNode
  split
  case isTrue => rfl
  case isFalse hlive => exact hdeadline hlive

theorem NodeSound.offline_at_eq_none (h : NodeSound grace lastClosed sessions changes (some node))
    (hlive : node.live ≠ 0) : node.offlineAt = none := by
  cases hdeadline : node.offlineAt with
  | none => rfl
  | some deadline => exact absurd (h.deadline node rfl deadline hdeadline).1 hlive

theorem NodeSound.opened (h : NodeSound grace lastClosed sessions changes entry) (nodeId : Nat)
    (ephemeral : Bool) (now : Int) :
    NodeSound grace lastClosed (sessions + 1) (changes ++ transitions nodeId
        (openNode nodeId { entry.getD { ephemeral } with ephemeral } now).2)
      (some (openNode nodeId
        { entry.getD { ephemeral } with ephemeral } now).1) := by
  obtain ⟨node, hnode⟩ : ∃ node : NodeSessions,
      { entry.getD { ephemeral } with ephemeral } = node := ⟨_, rfl⟩
  -- The refreshed flag plays no role.
  have hlive : node.live = sessions := by
    rw [← h.live, ← hnode]
    cases entry <;> rfl
  have honline : 0 < node.live → node.online = true := by
    rw [← hnode]
    cases entry with
    | none => exact fun hpos => absurd hpos (Nat.lt_irrefl 0)
    | some stored => exact h.online stored rfl
  have hdeadline : node.live ≠ 0 → node.offlineAt = none := by
    rw [← hnode]
    cases entry with
    | none => exact fun _ => rfl
    | some stored => exact h.offline_at_eq_none
  have hswitches : Switches false changes node.online := by
    have hbefore := h.switches
    rw [← hnode]
    cases entry <;> exact hbefore
  rw [hnode]
  refine ⟨?_, fun after hafter _ => ?_, fun after hafter deadline hset => ?_, ?_⟩
  · rw [← hlive]
    exact live_open_node nodeId node now
  · cases hafter
    exact online_open_node nodeId now honline
  · cases hafter
    rw [offline_at_open_node nodeId node now hdeadline] at hset
    cases hset
  · refine hswitches.append ?_
    rw [Option.map_some, Option.getD_some, online_open_node nodeId now honline]
    exact switches_open_node nodeId now honline

theorem NodeSound.closed (h : NodeSound grace lastClosed (sessions + 1) changes entry) (now : Int) :
    ∃ node, entry = some node ∧ NodeSound grace (some now) sessions changes
      (some { node with
        live := node.live - 1
        offlineAt := if node.live - 1 = 0 then some (now + grace) else node.offlineAt }) := by
  cases entry with
  | none => cases h.live
  | some node =>
    have hlive : node.live = sessions + 1 := h.live
    refine ⟨node, rfl, ?_, fun after hafter hpos => ?_, fun after hafter deadline hset => ?_, ?_⟩
    · exact congrArg Nat.pred hlive
    · cases hafter
      exact h.online node rfl (hlive ▸ Nat.succ_pos sessions)
    · cases hafter
      dsimp only at hset ⊢
      split at hset
      case isTrue hzero =>
        cases hset
        exact ⟨hzero, now, rfl, rfl⟩
      case isFalse =>
        rw [h.offline_at_eq_none (by omega)] at hset
        cases hset
    · exact h.switches

theorem NodeSound.ticked (h : NodeSound grace lastClosed sessions changes (some node))
    (nodeId : Nat) (now : Int) :
    NodeSound grace lastClosed sessions
      (changes ++ transitions nodeId (tickNode nodeId node now).2) (tickNode nodeId node now).1 ∧
    (.ephemeralExpired nodeId ∈ (tickNode nodeId node now).2 →
      sessions = 0 ∧ ∃ time, lastClosed = some time ∧ time + grace ≤ now) := by
  have hsame : NodeSound grace lastClosed sessions (changes ++ transitions nodeId []) (some node) ∧
      (.ephemeralExpired nodeId ∈ ([] : List SessionEvent) →
        sessions = 0 ∧ ∃ time, lastClosed = some time ∧ time + grace ≤ now) := by
    refine ⟨?_, fun hmem => absurd hmem List.not_mem_nil⟩
    rw [transitions, List.filterMap_nil, List.append_nil]
    exact h
  have hoffline : Switches node.online
      (transitions nodeId (if node.online = true then [.offline nodeId] else [])) false := by
    cases node.online with
    | false => exact .nil false
    | true =>
      simp only [if_true, transitions, transition, List.filterMap_cons, List.filterMap_nil]
      exact .cons (.nil _)
  unfold tickNode
  split
  case isTrue => exact hsame
  case isFalse hlive =>
    have hzero : node.live = 0 := not_not.mp hlive
    have hsessions : 0 = sessions := hzero.symm.trans h.live
    split
    case h_1 => exact hsame
    case h_2 deadline hdeadline =>
      split
      case isTrue => exact hsame
      case isFalse hdue =>
        obtain ⟨-, time, hclosed, rfl⟩ := h.deadline node rfl deadline hdeadline
        dsimp only
        split
        case isTrue =>
          refine ⟨⟨hsessions, fun _ hnone => (by cases hnone), fun _ hnone => (by cases hnone),
            h.switches.append ?_⟩, fun _ => ⟨hsessions.symm, time, hclosed, Int.not_lt.mp hdue⟩⟩
          rw [transitions, List.filterMap_append]
          exact hoffline.append (.nil false)
        case isFalse =>
          refine ⟨⟨h.live, fun after hafter hpos => ?_, fun after hafter deadline hset => ?_,
            h.switches.append hoffline⟩, fun hmem => ?_⟩
          · cases hafter
            exact absurd hpos (Nat.not_lt.mpr (Nat.le_of_eq hzero))
          · cases hafter
            cases hset
          · split at hmem <;> simp at hmem

end Node

/-! ## The registry -/

section Registry

variable {registry : SessionRegistry} {nodeId : Nat}

theorem mem_sessions_of {sessionId : Nat} :
    sessionId ∈ registry.sessionsOf nodeId ↔ registry.sessionToNode[sessionId]? = some nodeId := by
  rw [sessionsOf, List.mem_filter, Std.ExtTreeMap.mem_keys, decide_eq_true_eq,
    and_iff_right_iff_imp]
  intro hmapped
  rw [Std.ExtTreeMap.mem_iff_isSome_getElem?, hmapped]
  rfl

theorem nodup_sessions_of (registry : SessionRegistry) (nodeId : Nat) :
    (registry.sessionsOf nodeId).Nodup := Std.ExtTreeMap.nodup_keys.filter _

theorem length_sessions_of_insert {registry registry' : SessionRegistry} (sessionId other : Nat)
    (hnew : registry.sessionToNode[sessionId]? = none)
    (hsessions : registry'.sessionToNode = registry.sessionToNode.insert sessionId nodeId) :
    (registry'.sessionsOf other).length =
      (registry.sessionsOf other).length + if nodeId = other then 1 else 0 := by
  have hmem (id : Nat) : id ∈ registry'.sessionsOf other ↔
      (id = sessionId ∧ nodeId = other) ∨ id ∈ registry.sessionsOf other := by
    rw [mem_sessions_of, mem_sessions_of, hsessions, Std.ExtTreeMap.getElem?_insert]
    by_cases hid : sessionId = id
    · subst hid
      simp [hnew]
    · simp [hid, Ne.symm hid]
  by_cases hother : nodeId = other
  · have hperm : (registry'.sessionsOf other).Perm (sessionId :: registry.sessionsOf other) := by
      refine (List.perm_ext_iff_of_nodup (nodup_sessions_of _ _)
        (List.nodup_cons.mpr ⟨?_, nodup_sessions_of _ _⟩)).mpr fun id => ?_
      · rw [mem_sessions_of, hnew]
        simp
      · rw [hmem, List.mem_cons, and_iff_left hother]
    rw [hperm.length_eq, if_pos hother, List.length_cons]
  · have hperm : (registry'.sessionsOf other).Perm (registry.sessionsOf other) := by
      refine (List.perm_ext_iff_of_nodup (nodup_sessions_of _ _)
        (nodup_sessions_of _ _)).mpr fun id => ?_
      rw [hmem, or_iff_right fun h => hother h.2]
    rw [hperm.length_eq, if_neg hother, Nat.add_zero]

theorem length_sessions_of_erase {sessionId : Nat} {registry' : SessionRegistry}
    (hopen : registry.sessionToNode[sessionId]? = some nodeId)
    (hsessions : registry'.sessionToNode = registry.sessionToNode.erase sessionId) (other : Nat) :
    (registry.sessionsOf other).length =
      (registry'.sessionsOf other).length + if nodeId = other then 1 else 0 := by
  have hnew : registry'.sessionToNode[sessionId]? = none := by
    rw [hsessions, Std.ExtTreeMap.getElem?_erase_self]
  refine length_sessions_of_insert sessionId other hnew ?_
  refine Std.ExtTreeMap.ext_getElem? fun id => ?_
  rw [hsessions, Std.ExtTreeMap.getElem?_insert, Std.ExtTreeMap.getElem?_erase]
  by_cases hid : sessionId = id
  · subst hid
    simp [hopen]
  · simp [hid]

def tickEntry (now : Int) (nodes : BTreeMap Nat NodeSessions) (node : Nat × NodeSessions) :
    BTreeMap Nat NodeSessions :=
  match (SessionRegistry.tickNode node.1 node.2 now).1 with
  | none => nodes.erase node.1
  | some entry => nodes.insert node.1 entry

theorem tick_eq (registry : SessionRegistry) (now : Int) :
    registry.tick now =
      (registry.nodes.toList.flatMap fun node => (tickNode node.1 node.2 now).2,
        { registry with nodes := registry.nodes.toList.foldl (tickEntry now) registry.nodes }) := by
  unfold tick
  suffices hfold : ∀ (entries : List (Nat × NodeSessions)) (events : List SessionEvent)
      (before : SessionRegistry),
      entries.foldl (fun acc node =>
        (acc.1 ++ (tickNode node.1 node.2 now).2,
          { acc.2 with nodes := tickEntry now acc.2.nodes node })) (events, before) =
        (events ++ entries.flatMap fun node => (tickNode node.1 node.2 now).2,
          { before with nodes := entries.foldl (tickEntry now) before.nodes }) from
    hfold registry.nodes.toList [] registry
  intro entries
  induction entries with
  | nil =>
    intro events before
    simp
  | cons node entries ih =>
    intro events before
    rw [List.foldl_cons, List.flatMap_cons, ← List.append_assoc]
    exact ih _ _

theorem getElem?_nodes_tick (registry : SessionRegistry) (now : Int) (nodeId : Nat) :
    (registry.tick now).2.nodes[nodeId]? =
      (registry.nodes[nodeId]?).bind fun node => (tickNode nodeId node now).1 := by
  rw [tick_eq]
  dsimp only
  rw [getElem?_foldl_keyed Prod.fst
    (f := fun node _ => (tickNode node.1 node.2 now).1) _
    (nodup_keys_toList registry.nodes), find?_toList]
  · cases registry.nodes[nodeId]? <;> rfl
  · intro nodes node k
    unfold tickEntry
    by_cases hk : node.1 = k
    · subst hk
      cases (tickNode node.1 node.2 now).1 <;> simp
    · cases (tickNode node.1 node.2 now).1 <;>
        simp [hk, Std.ExtTreeMap.getElem?_erase, Std.ExtTreeMap.getElem?_insert]

theorem transitions_tick_node_other {now : Int} {other : Nat} (hother : nodeId ≠ other) :
    transitions other (tickNode nodeId node now).2 = [] := by
  unfold tickNode
  split
  · rfl
  · split
    · rfl
    · split
      · rfl
      · cases node.online <;> cases node.ephemeral <;> simp [transitions, transition, hother]

theorem transitions_open_node_other {now : Int} {other : Nat} (hother : nodeId ≠ other) :
    transitions other (openNode nodeId node now).2 = [] := by
  unfold openNode
  split
  · cases node.online <;> cases node.offlineAt.any (fun at_ => at_ ≤ now) <;>
      simp [transitions, transition, hother]
  · rfl

theorem transitions_tick (registry : SessionRegistry) (now : Int) (nodeId : Nat) :
    transitions nodeId (registry.tick now).1 =
      ((registry.nodes[nodeId]?).map fun node =>
        transitions nodeId (tickNode nodeId node now).2).getD [] := by
  have hother : ∀ node ∈ registry.nodes.toList, node.1 ≠ nodeId →
      (tickNode node.1 node.2 now).2.filterMap (transition nodeId) = [] :=
    fun node _ hne => transitions_tick_node_other hne
  rw [tick_eq]
  unfold transitions
  rw [List.filterMap_flatMap, flatMap_keyed Prod.fst
    (nodup_keys_toList registry.nodes) nodeId hother,
    find?_toList]
  cases registry.nodes[nodeId]? <;> rfl

theorem tick_node_marks (nodeId : Nat) (entry : NodeSessions) (now : Int) :
    (∀ kept, (tickNode nodeId entry now).1 = some kept → kept.ephemeral = entry.ephemeral) ∧
      ∀ expired, .ephemeralExpired expired ∈ (tickNode nodeId entry now).2 →
        expired = nodeId ∧ entry.ephemeral = true := by
  unfold tickNode
  have hoffline : ∀ expired, SessionEvent.ephemeralExpired expired ∉
      (if entry.online then [SessionEvent.offline nodeId] else []) := by
    intro expired
    split <;> simp
  split
  · exact ⟨fun _ h => by cases h; rfl, nofun⟩
  cases entry.offlineAt with
  | none => exact ⟨fun _ h => by cases h; rfl, nofun⟩
  | some deadline =>
    dsimp only
    split
    · exact ⟨fun _ h => by cases h; rfl, nofun⟩
    split
    case isTrue hephemeral =>
      refine ⟨nofun, fun expired h => ?_⟩
      obtain hbefore | hlast := List.mem_append.mp h
      · exact absurd hbefore (hoffline expired)
      · have hsame := List.mem_singleton.mp hlast
        cases hsame
        exact ⟨rfl, hephemeral⟩
    case isFalse =>
      exact ⟨fun _ h => by cases h; rfl, fun expired h => absurd h (hoffline expired)⟩

theorem expired_tick {now : Int} (h : .ephemeralExpired nodeId ∈ (registry.tick now).1) :
    ∃ node, registry.nodes[nodeId]? = some node ∧
      .ephemeralExpired nodeId ∈ (tickNode nodeId node now).2 := by
  rw [tick_eq] at h
  obtain ⟨⟨other, node⟩, hmem, hevent⟩ := List.mem_flatMap.mp h
  obtain ⟨rfl, -⟩ := (tick_node_marks other node now).2 nodeId hevent
  exact ⟨node, Std.ExtTreeMap.mem_toList_iff_getElem?_eq_some.mp hmem, hevent⟩

end Registry

/-! ## All calls -/

structure RegistryHistory.Sound (grace : Int) (history : RegistryHistory) : Prop where
  graceSeconds : history.registry.graceSeconds = grace
  ids : ∀ sessionId : Nat, history.registry.nextSessionId ≤ sessionId →
    history.registry.sessionToNode[sessionId]? = none
  nodes : ∀ nodeId : Nat, NodeSound grace (history.lastClosed nodeId)
    (history.registry.sessionsOf nodeId).length (transitions nodeId history.events)
    history.registry.nodes[nodeId]?

section Calls

variable {grace : Int} {history : RegistryHistory}

theorem getElem?_insert_of_ne {V : Type} {map : BTreeMap Nat V} {key other : Nat} {value : V}
    (h : key ≠ other) : (map.insert key value)[other]? = map[other]? := by
  rw [Std.ExtTreeMap.getElem?_insert, if_neg fun hcompare => h (Std.compare_eq_iff_eq.mp hcompare)]

theorem transitions_append (nodeId : Nat) (events more : List SessionEvent) :
    transitions nodeId (events ++ more) = transitions nodeId events ++ transitions nodeId more :=
  List.filterMap_append ..

theorem RegistryHistory.Sound.open_session (h : history.Sound grace) (nodeId : Nat)
    (ephemeral : Bool) (now : Int) :
    (history.make (.openSession nodeId ephemeral now)).Sound grace := by
  have hnew := h.ids _ (Nat.le_refl _)
  refine ⟨h.graceSeconds, fun sessionId hle => ?_, fun other => ?_⟩
  · have hne : history.registry.nextSessionId ≠ sessionId := Nat.ne_of_lt hle
    refine (Std.ExtTreeMap.getElem?_insert ..).trans ?_
    simp only [Std.compare_eq_iff_eq, if_neg hne]
    exact h.ids sessionId (Nat.le_of_succ_le hle)
  · have hlength : ((history.make (.openSession nodeId ephemeral now)).registry.sessionsOf
        other).length = _ := length_sessions_of_insert _ other hnew rfl
    have hevents : (history.make (.openSession nodeId ephemeral now)).events =
        history.events ++ (openNode nodeId
          { (history.registry.nodes[nodeId]?).getD { ephemeral } with ephemeral } now).2 := rfl
    have hnodes : (history.make (.openSession nodeId ephemeral now)).registry.nodes =
        history.registry.nodes.insert nodeId (openNode nodeId
          { (history.registry.nodes[nodeId]?).getD { ephemeral } with ephemeral } now).1 := rfl
    rw [hlength, hevents, hnodes, transitions_append]
    by_cases hother : nodeId = other
    · subst hother
      rw [if_pos rfl, Std.ExtTreeMap.getElem?_insert_self]
      exact (h.nodes nodeId).opened nodeId ephemeral now
    · rw [if_neg hother, Nat.add_zero, transitions_open_node_other hother, List.append_nil,
        getElem?_insert_of_ne hother]
      exact h.nodes other

theorem RegistryHistory.make_close_none {sessionId : Nat}
    (hclosed : history.registry.sessionToNode[sessionId]? = none) (now : Int) :
    history.make (.closeSession sessionId now) = history := by
  have hregistry : history.registry.make (.closeSession sessionId now) = history.registry := by
    rw [SessionRegistry.make, closeSession, hclosed]
  unfold RegistryHistory.make
  rw [hregistry, emits, List.append_nil]
  simp only [hclosed, reduceCtorEq, if_false]

theorem RegistryHistory.Sound.close_open_session (h : history.Sound grace) {sessionId nodeId : Nat}
    (hopen : history.registry.sessionToNode[sessionId]? = some nodeId) (now : Int) :
    (history.make (.closeSession sessionId now)).Sound grace := by
  have hsessions : (history.make (.closeSession sessionId now)).registry.sessionToNode =
      history.registry.sessionToNode.erase sessionId := by
    rw [RegistryHistory.make, SessionRegistry.make, closeSession, hopen]
  have hlength := length_sessions_of_erase hopen hsessions
  -- The session is one of the node's, so the node has an entry.
  have hown := h.nodes nodeId
  rw [hlength, if_pos rfl] at hown
  obtain ⟨node, hnode, hafter⟩ := hown.closed now
  have hregistry : (history.make (.closeSession sessionId now)).registry =
      { history.registry with
        sessionToNode := history.registry.sessionToNode.erase sessionId
        nodes := history.registry.nodes.insert nodeId
          { node with
            live := node.live - 1
            offlineAt :=
              if node.live - 1 = 0 then some (now + history.registry.graceSeconds)
              else node.offlineAt } } := by
    rw [RegistryHistory.make, SessionRegistry.make, closeSession, hopen]
    dsimp only
    rw [hnode]
  have hlastClosed (other : Nat) : (history.make (.closeSession sessionId now)).lastClosed other =
      if nodeId = other then some now else history.lastClosed other := by
    simp only [RegistryHistory.make, hopen, Option.some.injEq]
  have hevents : (history.make (.closeSession sessionId now)).events = history.events :=
    List.append_nil _
  refine ⟨?_, fun other hle => ?_, fun other => ?_⟩
  · rw [hregistry]
    exact h.graceSeconds
  · rw [hregistry] at hle
    rw [hsessions, Std.ExtTreeMap.getElem?_erase, h.ids other hle, ite_self]
  · rw [hlastClosed, hevents]
    by_cases hother : nodeId = other
    · subst hother
      rw [if_pos rfl, hregistry, Std.ExtTreeMap.getElem?_insert_self, h.graceSeconds]
      rw [hregistry, h.graceSeconds] at hafter
      exact hafter
    · have hsame := h.nodes other
      rw [hlength, if_neg hother, Nat.add_zero] at hsame
      rw [if_neg hother, hregistry, getElem?_insert_of_ne hother]
      rw [hregistry] at hsame
      exact hsame

theorem RegistryHistory.Sound.tick (h : history.Sound grace) (now : Int) :
    (history.make (.tick now)).Sound grace := by
  have hregistry : (history.make (.tick now)).registry = (history.registry.tick now).2 := rfl
  have hsessions : (history.registry.tick now).2.sessionToNode =
    history.registry.sessionToNode := by
    rw [tick_eq]
  have hsame (nodeId : Nat) : (history.registry.tick now).2.sessionsOf nodeId =
      history.registry.sessionsOf nodeId := by
    rw [sessionsOf, hsessions]
    rfl
  refine ⟨?_, fun sessionId hle => ?_, fun nodeId => ?_⟩
  · rw [hregistry, tick_eq]
    exact h.graceSeconds
  · rw [hregistry, hsessions]
    rw [hregistry, tick_eq] at hle
    exact h.ids sessionId hle
  · have hevents : (history.make (.tick now)).events =
        history.events ++ (history.registry.tick now).1 := rfl
    have hown := h.nodes nodeId
    rw [hevents, transitions_append, hregistry, hsame, getElem?_nodes_tick, transitions_tick]
    cases hnode : history.registry.nodes[nodeId]? with
    | none =>
      rw [hnode] at hown
      rw [Option.map_none, Option.getD_none, List.append_nil]
      exact hown
    | some node =>
      rw [hnode] at hown
      exact (hown.ticked nodeId now).1

theorem RegistryHistory.Sound.make (h : history.Sound grace) (call : RegistryCall) :
    (history.make call).Sound grace := by
  cases call with
  | openSession nodeId ephemeral now => exact h.open_session nodeId ephemeral now
  | closeSession sessionId now =>
    cases hopen : history.registry.sessionToNode[sessionId]? with
    | none =>
      rw [RegistryHistory.make_close_none hopen]
      exact h
    | some nodeId => exact h.close_open_session hopen now
  | tick now => exact h.tick now

theorem RegistryHistory.Sound.run (h : history.Sound grace) (calls : List RegistryCall) :
    (history.run calls).Sound grace := by
  induction calls generalizing history with
  | nil => exact h
  | cons call calls ih => exact ih (h.make call)

theorem sound_start (grace : Int) :
    RegistryHistory.Sound grace { registry := { graceSeconds := grace } } := by
  refine ⟨rfl, fun _ _ => Std.ExtTreeMap.getElem?_empty, fun nodeId => ?_⟩
  have hnone : ({ graceSeconds := grace } : SessionRegistry).sessionsOf nodeId = [] := by
    refine List.eq_nil_iff_forall_not_mem.mpr fun sessionId hmem => ?_
    rw [mem_sessions_of, Std.ExtTreeMap.getElem?_empty] at hmem
    cases hmem
  rw [hnone, Std.ExtTreeMap.getElem?_empty]
  exact node_sound_none

theorem RegistryHistory.Sound.expired (h : history.Sound grace) {call : RegistryCall} {nodeId : Nat}
    (hexpired : .ephemeralExpired nodeId ∈ history.registry.emits call) :
    history.registry.sessionsOf nodeId = [] ∧
      ∃ time, history.lastClosed nodeId = some time ∧ time + grace ≤ call.now := by
  cases call with
  | openSession other ephemeral now =>
    rw [emits, openSession] at hexpired
    dsimp only [openNode] at hexpired
    split at hexpired
    · rw [List.mem_append] at hexpired
      obtain hexpired | hexpired := hexpired <;> split at hexpired <;> simp at hexpired
    · cases hexpired
  | closeSession sessionId now => cases hexpired
  | tick now =>
    obtain ⟨node, hnode, hevent⟩ := expired_tick hexpired
    have hown := h.nodes nodeId
    rw [hnode] at hown
    obtain ⟨hnone, htime⟩ := (hown.ticked nodeId now).2 hevent
    exact ⟨List.eq_nil_of_length_eq_zero hnone, htime⟩

end Calls

end Crabscale.Control
