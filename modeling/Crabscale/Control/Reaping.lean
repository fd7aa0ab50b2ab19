import Crabscale.Control.NodeIds
import Crabscale.Control.Sessions

/-!
# Which node a reaped session belonged to

Reaping deletes the row that has the id of an expired ephemeral entry, whatever the row is by then:
after a logout it can be a new node (`other_node_reaped`). `SessionsOwn` rules this out: the id of
an entry denotes the node for which its sessions were opened, or nothing. It holds in every run in
which no new node is given an id with sessions (`reaped_node_ephemeral`).
-/

namespace Crabscale.Control

open Rust Proto Interaction Interaction.Program

/-! ## Entries of the registry -/

namespace SessionRegistry

def MarksFrom (before after : SessionRegistry) : Prop :=
  ∀ (id : Nat) (entry : NodeSessions), after.nodes[id]? = some entry →
    ∃ old, before.nodes[id]? = some old ∧ old.ephemeral = entry.ephemeral

variable {registry : SessionRegistry} {id : Nat} {entry : NodeSessions}

theorem open_session_entry {nodeId : Nat} {ephemeral : Bool} {now : Int}
    (h : (registry.openSession nodeId ephemeral now).2.nodes[id]? = some entry) :
    id = nodeId ∧ entry.ephemeral = ephemeral ∨ id ≠ nodeId ∧ registry.nodes[id]? = some entry := by
  change (registry.nodes.insert nodeId (openNode nodeId _ now).1)[id]? = some entry at h
  by_cases hid : id = nodeId
  · subst hid
    rw [Std.ExtTreeMap.getElem?_insert_self] at h
    refine .inl ⟨rfl, ?_⟩
    cases h
    unfold openNode
    split <;> rfl
  · rw [getElem?_insert_of_ne (Ne.symm hid)] at h
    exact .inr ⟨hid, h⟩

theorem close_session_marks (registry : SessionRegistry) (sessionId : Nat) (now : Int) :
    MarksFrom registry (registry.closeSession sessionId now).2 := by
  intro id entry h
  unfold closeSession at h
  cases hsession : registry.sessionToNode[sessionId]? with
  | none =>
    rw [hsession] at h
    exact ⟨entry, h, rfl⟩
  | some nodeId =>
    rw [hsession] at h
    dsimp only at h
    cases hnode : registry.nodes[nodeId]? with
    | none =>
      rw [hnode] at h
      exact ⟨entry, h, rfl⟩
    | some old =>
      rw [hnode] at h
      dsimp only at h
      by_cases hid : nodeId = id
      · subst hid
        rw [Std.ExtTreeMap.getElem?_insert_self] at h
        cases h
        exact ⟨old, hnode, rfl⟩
      · rw [getElem?_insert_of_ne hid] at h
        exact ⟨entry, h, rfl⟩

theorem tick_marks (registry : SessionRegistry) (now : Int) :
    MarksFrom registry (registry.tick now).2 := by
  intro id entry h
  rw [getElem?_nodes_tick] at h
  obtain ⟨old, hold, hkept⟩ := Option.bind_eq_some_iff.mp h
  exact ⟨old, hold, ((tick_node_marks id old now).1 entry hkept).symm⟩

end SessionRegistry

variable {cp : ControlPlane} {op : Op} {w₀ w : World}

/-! ## Opening, closing and reaping -/

theorem open_session_exec (nodeId : Nat) (ephemeral : Bool) (w : World) :
    (exec (ControlPlane.openSession nodeId ephemeral) w).2.db = w.db ∧
      (exec (ControlPlane.openSession nodeId ephemeral) w).2.sessions =
        (w.sessions.openSession nodeId ephemeral (w.env.clock w.env.position)).2 := by
  let opened := w.sessions.openSession nodeId ephemeral (w.env.clock w.env.position)
  let Opened (w' : World) : Prop := w'.db = w.db ∧ w'.sessions = opened.2
  have hopen : Yields (· = w) (ControlPlane.openSession nodeId ephemeral)
      (fun _ => Opened) (fun _ _ => False) := by
    have hnow : (environment .now).run handler w = (.ok (w.env.clock w.env.position), w.tick) := rfl
    refine triple_bind_run (safe_any _ _) hnow (triple_bind_run (safe_any _ _) rfl ?_)
    -- What follows the call of the registry is only published on the bus.
    refine Triple.bind (M := fun _ => Opened) (Triple.pre (Triple.forM fun event _ => ?_) ?_)
      fun _ => triple_pure fun _ hw => hw
    · cases event with
      | online id => exact triple_perform (fun _ _ => trivial) fun _ hw => hw
      | offline id => exact triple_pure fun _ hw => hw
      | ephemeralExpired id => exact triple_pure fun _ hw => hw
    · rintro _ rfl
      exact ⟨rfl, rfl⟩
  obtain ⟨sessionId, w', hrun, hopened⟩ := hopen.total rfl
  rw [exec, hrun]
  exact hopened

/-- What reaping has done so far: it deleted rows of expired ids only. -/
structure Reaped (before : Db) (events : List SessionEvent) (db : Db) : Prop where
  nodes : db.nodes ⊆ before.nodes
  rest : ∀ row ∈ before.nodes, row ∈ db.nodes ∨ .ephemeralExpired row.id ∈ events

theorem Db.mem_delete {db : Db} {nodeKey : NodeKey} {row : Node} (hrow : row ∈ db.nodes)
    (hkey : row.nodeKey ≠ nodeKey) : row ∈ (db.deleteNode nodeKey).2.nodes := by
  unfold Db.deleteNode
  split
  · obtain hsame | htables := Db.statement_cases db
      { db.toTables with nodes := db.nodes.filter (·.nodeKey ≠ nodeKey) } ()
    · rw [hsame]
      exact hrow
    · rw [htables]
      exact List.mem_filter.mpr ⟨hrow, decide_eq_true hkey⟩
  · exact hrow

theorem reap_event_spec {before : Db} {events : List SessionEvent} {sessions : SessionRegistry}
    {event : SessionEvent} (hevent : event ∈ events) :
    Yields (fun w => Reaped before events w.db ∧ w.sessions = sessions)
      (ControlPlane.reapEvent event) (fun _ w => Reaped before events w.db ∧ w.sessions = sessions)
      fun _ _ => False := by
  have hpublish (event : ChangeEvent) :
      Yields (fun w => Reaped before events w.db ∧ w.sessions = sessions)
        (publishChange event) (fun _ w => Reaped before events w.db ∧ w.sessions = sessions)
        (fun _ _ => False) :=
    triple_perform (fun _ _ => trivial) fun _ hw => hw
  cases event with
  | online id => exact triple_pure fun _ hw => hw
  | offline id => exact hpublish _
  | ephemeralExpired id =>
    refine Triple.bind (M := fun found w => (Reaped before events w.db ∧ w.sessions = sessions) ∧
      found = .ok (w.db.getNodeById id)) (triple_perform (fun _ _ => trivial) fun w hw =>
        ⟨hw, rfl⟩)
      fun found => ?_
    dsimp only
    split
    case h_2 => exact (hpublish _).pre fun _ hw => hw.1
    case h_3 => exact (hpublish _).pre fun _ hw => hw.1
    case h_1 node =>
      refine Triple.bind (M := fun _ w => Reaped before events w.db ∧ w.sessions = sessions)
        (triple_perform (fun _ _ => trivial) fun w hw => ?_) fun _ => hpublish _
      obtain ⟨⟨hreaped, hsessions⟩, hfound⟩ := hw
      obtain ⟨hnode, hid⟩ := Db.get_node_by_id_eq_some.mp (Except.ok.inj hfound).symm
      refine ⟨⟨fun row hrow => hreaped.nodes (Db.nodes_delete w.db _ hrow), fun row hrow => ?_⟩,
        hsessions⟩
      obtain hkept | hexpired := hreaped.rest row hrow
      · by_cases hkey : row.nodeKey = node.nodeKey
        · -- Node keys are unique, so the deleted row is the one that was looked up.
          have hsame := List.inj_on_of_nodup_map w.db.valid.nodeKeys hkept hnode hkey
          rw [hsame, hid]
          exact .inr hevent
        · exact .inl (Db.mem_delete hkept hkey)
      · exact .inr hexpired

theorem reap_sessions_exec (cp : ControlPlane) (w : World) :
    Reaped w.db (w.sessions.tick (w.env.clock w.env.position)).1 (Op.reapSessions.exec cp w).db ∧
      (Op.reapSessions.exec cp w).sessions =
        (w.sessions.tick (w.env.clock w.env.position)).2 := by
  let ticked := w.sessions.tick (w.env.clock w.env.position)
  have hevents : Yields
      (fun w' => Reaped w.db ticked.1 w'.db ∧ w'.sessions = ticked.2)
      ((ticked.1.forM ControlPlane.reapEvent >>= fun _ => pure ticked.1) >>= fun _ => pure ())
      (fun _ w' => Reaped w.db ticked.1 w'.db ∧ w'.sessions = ticked.2) (fun _ _ => False) :=
    ((Triple.forM fun event hevent => reap_event_spec hevent).bind fun _ =>
      triple_pure fun _ hw => hw).bind fun _ => triple_pure fun _ hw => hw
  obtain ⟨_, w', hrun, hend⟩ := hevents.total (s := { w.tick with sessions := ticked.2 })
    ⟨⟨List.Subset.refl _, fun _ hrow => .inl hrow⟩, rfl⟩
  have hexec : Op.reapSessions.exec cp w = w' := congrArg Prod.snd hrun
  rw [hexec]
  exact hend

/-! ## Rows and their lifetime -/

/-- The operation registers a node key over a row, other than an authorized one of its own
machine. -/
def Op.Readmits (op : Op) (w : World) (row : Node) : Prop :=
  op.registers w = some row.nodeKey ∧ ∀ machineKey request, op = .register machineKey request →
    ¬(row.machineKey = machineKey ∧ row.machineAuthorized = true)

/-- Every row is one that was there when the operation started and lives as long, one that a node
was registered over, or the new row of a registration. -/
def LifetimesFrom (op : Op) (w₀ : World) (db : Db) : Prop :=
  ∀ row ∈ db.nodes, (∃ stored ∈ w₀.db.nodes, stored.id = row.id ∧
    (stored.ephemeral = row.ephemeral ∨ op.Readmits w₀ stored)) ∨
      op.Enrolls w₀ ∧ row.id = w₀.db.nextId

/-- A node that is written over a row lives as long as the row, unless it is registered again. -/
theorem NodeAct.readmits {node stored : Node} (h : NodeAct cp op w₀ w node)
    (hstored : stored ∈ w.db.nodes) (hkey : stored.nodeKey = node.nodeKey) :
    node.ephemeral = stored.ephemeral ∨ stored ∈ w₀.db.nodes ∧ op.Readmits w₀ stored := by
  have hsame {row : Node} (hrow : row ∈ w.db.nodes) (hrowKey : row.nodeKey = node.nodeKey) :
      stored = row :=
    List.inj_on_of_nodup_map w.db.valid.nodeKeys hstored hrow (hkey.trans hrowKey.symm)
  cases h with
  | edit _ hrow hedit =>
    rw [hsame hrow hedit.same.nodeKey.symm]
    exact .inl hedit.ephemeral
  | @reauthorize machineKey request key row hpresented hrow hnodes hnodeKey _ hnot hnode =>
    have hstored' : stored = row := hsame hrow (by rw [hnode])
    subst hstored'
    refine .inr ⟨hnodes ▸ hrow, ?_, fun _ _ _ hrow => ?_⟩
    · rw [hpresented.op, hnodeKey]
      exact if_pos hpresented.followup
    · rw [hnot] at hrow
      cases hrow.2
  | enroll _ _ _ hnew hnode =>
    refine absurd hkey ?_
    rw [hnode]
    exact hnew stored hstored
  | @complete _ entry _ _ _ _ _ happroved _ hnodes _ hretry hnode =>
    obtain ⟨request, authId, rfl, hauth, hentry⟩ := happroved.op
    have hentryKey : stored.nodeKey = entry.nodeKey := by
      rw [hkey, hnode]
      rfl
    refine .inr ⟨hnodes ▸ hstored, ?_, fun _ _ hop => ?_⟩
    · show (if request.followup = "" then _ else _) = _
      rw [if_neg (auth_id_from_followup_ne_empty hauth), hauth, Option.bind_some, hentry,
        Option.map_some, hentryKey]
    · cases hop
      exact hretry stored hstored hentryKey

theorem LifetimesFrom.call {c : Call} (h : LifetimesFrom op w₀ w.db) (hc : Acts cp op w₀ w c) :
    LifetimesFrom op w₀ (handler c w).2.db := by
  intro row hrow
  obtain ⟨stored, hstored, stableId, rfl⟩ | ⟨node, hact, stored, hstored, hkey, stableId, rfl⟩ |
    hnew := hc.row_cases hrow
  · exact h stored hstored
  · obtain hsame | ⟨hstart, hreadmits⟩ := hact.readmits hstored hkey
    · show (∃ first ∈ w₀.db.nodes, first.id = stored.id ∧
        (first.ephemeral = node.ephemeral ∨ op.Readmits w₀ first)) ∨ _
      rw [hsame]
      exact h stored hstored
    · exact .inl ⟨stored, hstart, rfl, .inr hreadmits⟩
  · exact .inr hnew

theorem Op.lifetimes_from (op : Op) (w : World) : LifetimesFrom op w (op.exec cp w).db :=
  Op.keeps_world (I := fun w' => LifetimesFrom op w w'.db) (fun _ _ hw' hc => hw'.call hc)
    fun row hrow => .inl ⟨row, hrow, rfl, .inl rfl⟩

/-! ## Runs -/

/-- A step of a run: an operation that works on nodes, keys or pending registrations, like
`register` and `logout`, or one on the sessions. -/
inductive SessionAct where
  | op (op : Op) (hssh : op.isSsh = false) (hsession : op.isSession = false)
  | openSession (nodeId : Nat) (ephemeral : Bool)
  | closeSession (sessionId : Nat)
  | reapSessions

/-- The state after a step. -/
def SessionAct.exec (cp : ControlPlane) (w : World) : SessionAct → World
  | .op op _ _ => op.exec cp w
  | .openSession nodeId ephemeral => (Control.exec (ControlPlane.openSession nodeId ephemeral) w).2
  | .closeSession sessionId => (Op.closeSession sessionId).exec cp w
  | .reapSessions => Op.reapSessions.exec cp w

abbrev OpenedFor : Type := Nat → List (Option NodeKey)

/-- Note what the id of a session denotes when it is opened. The first session of an entry forgets
the sessions of an earlier entry. -/
def noteSession (w : World) (act : SessionAct) (opened : OpenedFor) : OpenedFor :=
  match act with
  | .openSession nodeId _ =>
    let earlier := if w.sessions.nodes.contains nodeId then opened nodeId else []
    Function.update opened nodeId (w.db.keyOf nodeId :: earlier)
  | _ => opened

/-- No new node is given an id that has sessions, and no node is registered over the row of an
ephemeral entry, except over an authorized one by its own machine. Sessions are opened as
`handleMap` does: for a stored row, with the lifetime of the row. -/
def KeepsSessions (w : World) (_ : OpenedFor) : SessionAct → Prop
  | .op op _ _ =>
    (op.Enrolls w → w.sessions.nodes[w.db.nextId]? = none) ∧
      ∀ row ∈ w.db.nodes, op.Readmits w row →
        ∀ entry : NodeSessions, w.sessions.nodes[row.id]? = some entry → entry.ephemeral = false
  | .openSession nodeId ephemeral => ∃ row ∈ w.db.nodes, row.id = nodeId ∧ row.ephemeral = ephemeral
  | .closeSession _ | .reapSessions => True

/-- The id of an entry denotes the node for which its sessions were opened, or nothing, and the row
of an ephemeral entry is ephemeral. -/
structure OwnEntry (db : Db) (opened : OpenedFor) (id : Nat) (entry : NodeSessions) : Prop where
  some : opened id ≠ []
  key : ∀ nodeKey ∈ opened id, db.keyOf id = nodeKey ∨ db.keyOf id = none
  ephemeral : entry.ephemeral = true → ∀ row ∈ db.nodes, row.id = id → row.ephemeral = true

/-- Every entry of the registry belongs to its row. -/
def SessionsOwn (w : World) (opened : OpenedFor) : Prop :=
  ∀ (id : Nat) (entry : NodeSessions), w.sessions.nodes[id]? = some entry →
    OwnEntry w.db opened id entry

variable {opened : OpenedFor}

theorem OwnEntry.rows {db db' : Db} {id : Nat} {entry : NodeSessions}
    (h : OwnEntry db opened id entry) (hkey : db'.keyOf id = db.keyOf id ∨ db'.keyOf id = none)
    (hrows : entry.ephemeral = true → ∀ row ∈ db'.nodes, row.id = id →
      ∃ stored ∈ db.nodes, stored.id = id ∧ stored.ephemeral = row.ephemeral) :
    OwnEntry db' opened id entry where
  some := h.some
  key nodeKey hopened := by
    obtain hsame | hnone := hkey
    · rw [hsame]
      exact h.key nodeKey hopened
    · exact .inr hnone
  ephemeral hephemeral row hrow hid := by
    obtain ⟨stored, hstored, hstoredId, hsame⟩ := hrows hephemeral row hrow hid
    rw [← hsame]
    exact h.ephemeral hephemeral stored hstored hstoredId

theorem SessionsOwn.apart {hssh : op.isSsh = false} {hsession : op.isSession = false}
    (h : SessionsOwn w opened) (hkeeps : KeepsSessions w opened (.op op hssh hsession)) :
    SessionsOwn (op.exec cp w) opened := by
  obtain ⟨henrolls, hreadmits⟩ := hkeeps
  have hsessions : (op.exec cp w).sessions = w.sessions :=
    op.deeds.invariant (I := fun w' => w'.sessions = w.sessions)
      (fun w' c hw' hc => ((hc.sessions hsession).sessions_eq w').trans hw') rfl rfl
  intro id entry hentry
  rw [hsessions] at hentry
  have hnew (h : op.Enrolls w) : id ≠ w.db.nextId := by
    rintro rfl
    rw [henrolls h] at hentry
    cases hentry
  refine (h id entry hentry).rows (Op.key_or_none hnew) fun hephemeral row hrow hid => ?_
  obtain ⟨stored, hstored, hstoredId, hsame | hover⟩ | ⟨h, hnext⟩ := op.lifetimes_from w row hrow
  · exact ⟨stored, hstored, hstoredId.trans hid, hsame⟩
  · have hnot := hreadmits stored hstored hover entry (by rw [hstoredId, hid]; exact hentry)
    rw [hephemeral] at hnot
    cases hnot
  · exact absurd (hid.symm.trans hnext) (hnew h)

theorem SessionsOwn.opening {nodeId : Nat} {ephemeral : Bool} (h : SessionsOwn w opened)
    (hkeeps : KeepsSessions w opened (.openSession nodeId ephemeral)) :
    SessionsOwn (exec (ControlPlane.openSession nodeId ephemeral) w).2
      (noteSession w (.openSession nodeId ephemeral) opened) := by
  obtain ⟨row, hrow, rfl, rfl⟩ := hkeeps
  obtain ⟨hdb, hsessions⟩ := open_session_exec row.id row.ephemeral w
  intro id entry hentry
  rw [hsessions] at hentry
  rw [hdb]
  obtain ⟨rfl, hephemeral⟩ | ⟨hid, hbefore⟩ := SessionRegistry.open_session_entry hentry
  · refine ⟨?_, ?_, fun hmarked other hother hid => ?_⟩
    · simp [noteSession]
    · intro nodeKey hnoted
      simp only [noteSession, Function.update_self, List.mem_cons] at hnoted
      obtain rfl | hearlier := hnoted
      · exact .inl rfl
      · split at hearlier
        case isFalse => cases hearlier
        case isTrue hcontains =>
          have hentry := Std.ExtTreeMap.getElem?_eq_some_getElem hcontains
          exact (h row.id _ hentry).key nodeKey hearlier
    · have hsame := List.inj_on_of_nodup_map w.db.nodup_node_ids hother hrow hid
      rw [hsame, ← hephemeral]
      exact hmarked
  · have hopened : noteSession w (.openSession row.id row.ephemeral) opened id = opened id :=
      Function.update_of_ne hid ..
    have hown := h id entry hbefore
    exact ⟨hopened ▸ hown.some, hopened ▸ hown.key, hown.ephemeral⟩

theorem SessionsOwn.shrink {w' : World} (h : SessionsOwn w opened)
    (hmarks : SessionRegistry.MarksFrom w.sessions w'.sessions)
    (hnodes : w'.db.nodes ⊆ w.db.nodes) : SessionsOwn w' opened := by
  intro id entry hentry
  obtain ⟨old, hold, hmark⟩ := hmarks id entry hentry
  have hown : OwnEntry w'.db opened id old :=
    (h id old hold).rows (Db.key_of_subset hnodes id) fun _ row hrow hid =>
      ⟨row, hnodes hrow, hid, rfl⟩
  exact ⟨hown.some, hown.key, fun hmarked => hown.ephemeral (hmark.trans hmarked)⟩

theorem SessionsOwn.step (act : SessionAct) (h : SessionsOwn w opened)
    (hkeeps : KeepsSessions w opened act) :
    SessionsOwn (act.exec cp w) (noteSession w act opened) := by
  cases act with
  | op op hssh hsession => exact SessionsOwn.apart h hkeeps
  | openSession nodeId ephemeral => exact SessionsOwn.opening h hkeeps
  | closeSession sessionId =>
    exact SessionsOwn.shrink h (SessionRegistry.close_session_marks w.sessions sessionId _)
      (List.Subset.refl w.db.nodes)
  | reapSessions =>
    obtain ⟨hreaped, hsessions⟩ := reap_sessions_exec cp w
    exact SessionsOwn.shrink h (hsessions ▸ SessionRegistry.tick_marks w.sessions _) hreaped.nodes

abbrev SessionRuns (cp : ControlPlane) (start w : World) (opened : OpenedFor) : Prop :=
  Noted (SessionAct.exec cp) noteSession KeepsSessions start (fun _ => []) w opened

/-- In every run that starts without sessions, gives no id with sessions to a new node, registers
nothing over the row of an ephemeral entry but by its own machine, and opens sessions for stored
rows with their lifetime: a row that reaping deletes is ephemeral, and the expired sessions were
opened for its node. -/
theorem reaped_node_ephemeral (cp : ControlPlane) (start w : World) (opened : OpenedFor)
    (hstart : start.sessions.nodes = ∅) (hrun : SessionRuns cp start w opened) (row : Node)
    (hrow : row ∈ w.db.nodes) (hgone : row ∉ (Op.reapSessions.exec cp w).db.nodes) :
    row.ephemeral = true ∧ opened row.id ≠ [] ∧
      ∀ nodeKey ∈ opened row.id, nodeKey = some row.nodeKey := by
  have hown : SessionsOwn w opened :=
    hrun.invariant (I := SessionsOwn) (fun _ _ act h hkeeps => SessionsOwn.step act h hkeeps)
      fun id entry h => by rw [hstart, Std.ExtTreeMap.getElem?_empty] at h; cases h
  obtain ⟨hreaped, -⟩ := reap_sessions_exec cp w
  have hexpired := (hreaped.rest row hrow).resolve_left hgone
  obtain ⟨entry, hentry, hevent⟩ := expired_tick hexpired
  obtain ⟨-, hephemeral⟩ := (tick_node_marks row.id entry _).2 row.id hevent
  obtain ⟨hsome, hkey, hmark⟩ := hown row.id entry hentry
  refine ⟨hmark hephemeral row hrow rfl, hsome, fun nodeKey hnoted => ?_⟩
  have hrowKey : w.db.keyOf row.id = some row.nodeKey := Db.key_of_eq_some.mpr ⟨row, hrow, rfl, rfl⟩
  obtain hsame | hnone := hkey nodeKey hnoted
  · exact hsame.symm.trans hrowKey
  · rw [hrowKey] at hnone
    cases hnone

def hourlyEnv : Env := { stillEnv with clock := fun position => 3600 * position }

def guestRegistered : World :=
  runOps openServer [.createPreAuthKey "guest" true true none none, registerGuest 2]
    (openServer.withStore Db.empty hourlyEnv)

def guestOnline : World := (SessionAct.openSession 1 true).exec openServer guestRegistered

def guestOffline : World := (SessionAct.closeSession 1).exec openServer guestOnline

def guestOpened : OpenedFor := noteSession guestRegistered (.openSession 1 true) fun _ => []

/-- The guest is removed after it left. -/
theorem reaped_node_ephemeral_guest :
    ∃ row ∈ guestOffline.db.nodes, row ∉ (Op.reapSessions.exec openServer guestOffline).db.nodes ∧
      row.ephemeral = true ∧ guestOpened row.id ≠ [] ∧
      ∀ nodeKey ∈ guestOpened row.id, nodeKey = some row.nodeKey := by
  have hgone : ∃ row ∈ guestOffline.db.nodes,
      row ∉ (Op.reapSessions.exec openServer guestOffline).db.nodes := by
    decide +kernel
  have hstored : ∃ row ∈ guestRegistered.db.nodes, row.id = 1 ∧ row.ephemeral = true := by
    decide +kernel
  have hrun : SessionRuns openServer guestRegistered guestOffline guestOpened :=
    .step (.step .refl hstored) trivial
  obtain ⟨row, hrow, hgone⟩ := hgone
  exact ⟨row, hrow, hgone, reaped_node_ephemeral openServer guestRegistered guestOffline guestOpened
    rfl hrun row hrow hgone⟩

/-- The guest left for good, and another node registered with the configured key. -/
def guestReplaced : World :=
  runOps openServer [.logout ⟨2⟩ ⟨2⟩, .register ⟨3⟩ (registerRequest 3)] guestOffline

/-- The other node is removed in the guest's place. -/
theorem other_node_reaped :
    guestOpened 1 = [some ⟨2⟩] ∧
    ∃ row ∈ guestReplaced.db.nodes, row.id = 1 ∧ row.nodeKey = ⟨3⟩ ∧ row.ephemeral = false ∧
      row ∉ (Op.reapSessions.exec openServer guestReplaced).db.nodes := by
  decide +kernel

end Crabscale.Control
