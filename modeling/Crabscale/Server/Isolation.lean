import Crabscale.Control.NodeIds
import Crabscale.Server.Stream

/-!
# Whose view a stream carries

Every update is built for the row that has the id for which the stream was opened. When the row was
deleted and a new node got its id, or a followup hands the row to another machine, the stream
carries the view of the new node (`stream_recycled`). `OwnRow` is the invariant that rules this out,
and `stream_carries_own_view` what follows for every frame.
-/

namespace Crabscale.Server

open Rust Proto Interaction Control

/-! ## Frames -/

def MapStream.frame (cp : ControlPlane) (w : World) (m : MapStream) (batch : ChangeBatch) :
    Option MapResponse :=
  if batch.events = [] then none
  else
    match (exec (cp.buildDelta m.nodeId batch m.lastSent m.clientVersion) w).1 with
    | .error _ | .ok (none, _) => none
    | .ok (some response, _) =>
      match cp.ext.encodeError response m.compress with
      | some _ => none
      | none => some response

variable {cp : ControlPlane} {w : World} {m : MapStream} {batch : ChangeBatch}

theorem on_batch_frame (cp : ControlPlane) (w : World) (m : MapStream) (batch : ChangeBatch) :
    (m.onBatch cp w batch).held = m.held.receiveUpdate (m.frame cp w batch) ∧
      (m.onBatch cp w batch).nodeId = m.nodeId := by
  unfold MapStream.onBatch MapStream.frame
  split
  · exact ⟨rfl, rfl⟩
  cases (exec (cp.buildDelta m.nodeId batch m.lastSent m.clientVersion) w).1 with
  | error error => exact ⟨rfl, rfl⟩
  | ok result =>
    obtain ⟨_ | response, lastSent⟩ := result
    · exact ⟨rfl, rfl⟩
    · dsimp only
      cases cp.ext.encodeError response m.compress with
      | none => exact ⟨rfl, rfl⟩
      | some error => exact ⟨rfl, rfl⟩

theorem built_of_frame {response : MapResponse} (h : m.frame cp w batch = some response) :
    ∃ lastSent, (exec (cp.buildDelta m.nodeId batch m.lastSent m.clientVersion) w).1 =
      .ok (some response, lastSent) := by
  unfold MapStream.frame at h
  split at h
  · cases h
  cases hbuilt : (exec (cp.buildDelta m.nodeId batch m.lastSent m.clientVersion) w).1 with
  | error error =>
    rw [hbuilt] at h
    cases h
  | ok result =>
    obtain ⟨_ | built, lastSent⟩ := result
    · rw [hbuilt] at h
      cases h
    · rw [hbuilt] at h
      dsimp only at h
      split at h
      · cases h
      · cases h
        exact ⟨lastSent, rfl⟩

/-- A frame is the update of the row with the stream's id, or it only has the DNS configuration and
the DERP map. -/
theorem frame_cases {response : MapResponse} (h : m.frame cp w batch = some response) :
    (∃ row, w.db.getNodeById m.nodeId = some row ∧
      cp.deltaOf w row batch m.lastSent m.clientVersion = some response) ∨
      response = { dns := response.dns, derpMap := response.derpMap } := by
  obtain ⟨lastSent, hbuilt⟩ := built_of_frame h
  obtain ⟨-, rfl⟩ | ⟨row, hrow, hdelta⟩ := build_delta_cases hbuilt
  · exact .inr rfl
  · exact .inl ⟨row, hrow, hdelta⟩

/-! ## The row of a stream -/

def OwnRow (id : Nat) (nodeKey : NodeKey) (machineKey : MachineKey) (db : Db) : Prop :=
  ∀ row ∈ db.nodes, row.id = id → row.nodeKey = nodeKey ∧ row.machineKey = machineKey

section Rows

variable {op : Op} {w₀ : World} {id : Nat} {nodeKey : NodeKey} {machineKey : MachineKey}

/-- The operation leaves the row with an id to its node and its machine: it gives the id to no new
node, and a followup that completes over the row is one of the row's machine. -/
structure LeavesRow (id : Nat) (w : World) (op : Op) : Prop where
  enrolls : op.Enrolls w → w.db.nextId ≠ id
  completes : ∀ machineKey request row, op = .register machineKey request → row.id = id →
    Completes w.db machineKey request row → row.machineKey = machineKey

theorem OwnRow.call {c : Call} (h : OwnRow id nodeKey machineKey w.db)
    (hleaves : LeavesRow id w₀ op)
    (hc : Acts cp op w₀ w c) : OwnRow id nodeKey machineKey (handler c w).2.db := by
  intro row hrow hid
  obtain ⟨stored, hstored, stableId, rfl⟩ | ⟨node, hact, stored, hstored, hkey, stableId, rfl⟩ |
    ⟨henrolls, hnext⟩ := hc.row_cases hrow
  · exact h stored hstored hid
  · obtain ⟨hnodeKey, hmachine⟩ := h stored hstored hid
    refine ⟨hkey.symm.trans hnodeKey, ?_⟩
    show node.machineKey = machineKey
    have hsame {row : Node} (hrow : row ∈ w.db.nodes) (hrowKey : row.nodeKey = node.nodeKey) :
        row = stored :=
      List.inj_on_of_nodup_map w.db.valid.nodeKeys hrow hstored (hrowKey.trans hkey.symm)
    cases hact.node_write with
    | rewrite hbefore hedit =>
      rw [hedit.machineKey, hsame hbefore hedit.nodeKey.symm]
      exact hmachine
    | create _ hnew _ _ => exact absurd hkey (hnew stored hstored)
    | takeover hbefore hbeforeKey htaken _ _ _ =>
      cases hsame hbefore hbeforeKey
      cases op with
      | register machine request =>
        rw [htaken.1, ← hleaves.completes machine request stored rfl hid htaken.2]
        exact hmachine
      | _ => exact htaken.elim
  · exact absurd (hnext.symm.trans hid) (hleaves.enrolls henrolls)

theorem OwnRow.exec (h : OwnRow id nodeKey machineKey w.db) (hleaves : LeavesRow id w op) :
    OwnRow id nodeKey machineKey (op.exec cp w).db :=
  Op.keeps_world (I := fun w' => OwnRow id nodeKey machineKey w'.db)
    (fun _ _ hw' hc => hw'.call hleaves hc) h

theorem own_row_start {request : MapRequest} {start : StreamStart} {w' : World}
    (h : Control.exec (cp.handleMap machineKey request) w = (.ok (.stream start), w')) :
    OwnRow start.nodeId request.nodeKey machineKey w'.db := by
  obtain ⟨node, _, ⟨before, hbefore, hmachine, hmap⟩, -, -, -, hstart⟩ := handle_map_ok h
  obtain ⟨hmem, hkey⟩ := Db.get_node_by_node_key_eq_some.mp hbefore
  have hid : start.nodeId = before.id := (hstart start rfl).nodeId.trans (map_row_same_row hmap).id
  have hown : OwnRow before.id request.nodeKey machineKey w.db := by
    intro row hrow hrowId
    have hsame := List.inj_on_of_nodup_map (Db.nodup_node_ids w.db) hrow hmem hrowId
    rw [hsame]
    exact ⟨hkey, hmachine⟩
  have hleaves : LeavesRow before.id w (.handleMap machineKey request) := by
    refine ⟨?_, ?_⟩
    · rintro ⟨_, hregisters, -⟩
      cases hregisters
    · intro _ _ _ hop
      cases hop
  have hexec : (Op.handleMap machineKey request).exec cp w = w' := by
    have hrun := Program.run_bind_ok (f := fun _ => pure ()) handler h
    exact congrArg Prod.snd hrun
  rw [hid, ← hexec]
  exact hown.exec hleaves

end Rows

/-! ## Sequential runs -/

/-- A step of a sequential run: a whole operation, an in-memory call like the end of a batch window,
or a step of the stream. -/
inductive StreamAct where
  | op (op : Op)
  | memory (c : MemoryCall)
  | subscribe
  | receive

/-- One step; `none` when it cannot be taken. -/
def StreamState.next (cp : ControlPlane) (s : StreamState) : StreamAct → Option StreamState
  | .op op => some { s with world := op.exec cp s.world }
  | .memory c => s.step cp (.call (.memory c))
  | .subscribe => s.step cp .subscribe
  | .receive => s.step cp .receive

def LeavingStep (cp : ControlPlane) (s s' : StreamState) : Prop :=
  ∃ act, (∀ op, act = .op op → LeavesRow s.stream.nodeId s.world op) ∧ s.next cp act = some s'

def StreamState.Own (nodeKey : NodeKey) (machineKey : MachineKey) (s : StreamState) : Prop :=
  OwnRow s.stream.nodeId nodeKey machineKey s.world.db

theorem StreamState.Own.step {nodeKey : NodeKey} {machineKey : MachineKey} {s s' : StreamState}
    (h : s.Own nodeKey machineKey) (hstep : LeavingStep cp s s') : s'.Own nodeKey machineKey := by
  obtain ⟨act, hleaves, hnext⟩ := hstep
  cases act with
  | op op =>
    cases hnext
    exact OwnRow.exec h (hleaves op rfl)
  | memory c =>
    cases hnext
    unfold StreamState.Own OwnRow
    rw [((Call.memory c).same_but s.world).nodes nofun]
    exact h
  | subscribe =>
    simp only [StreamState.next, StreamState.step] at hnext
    split at hnext <;> cases hnext
    exact h
  | receive =>
    simp only [StreamState.next, StreamState.step] at hnext
    split at hnext
    · cases hnext
    split at hnext <;> cases hnext
    · exact h
    · show OwnRow (s.stream.onBatch cp s.world _).nodeId _ _ _
      rw [(on_batch_frame cp s.world s.stream _).2]
      exact h

/-- In every run in which the stream's id is given to no new node, and followups complete over its
row only for the row's machine: a frame that the stream sends is the update of the row of the node
and the machine that opened the stream, or, whether that row still exists or not, it only has the
DNS configuration and the DERP map. -/
theorem stream_carries_own_view (cp : ControlPlane) (w : World) (machineKey : MachineKey)
    (request : MapRequest) (s₀ s : StreamState)
    (hstart : firstFrame cp machineKey request w = some s₀)
    (hrun : Relation.ReflTransGen (LeavingStep cp) s₀ s) (batch : ChangeBatch)
    (response : MapResponse) (hframe : s.stream.frame cp s.world batch = some response) :
    (∃ row, s.world.db.getNodeById s.stream.nodeId = some row ∧ row.nodeKey = request.nodeKey ∧
      row.machineKey = machineKey ∧
      cp.deltaOf s.world row batch s.stream.lastSent s.stream.clientVersion = some response) ∨
      response = { dns := response.dns, derpMap := response.derpMap } := by
  have hown : s.Own request.nodeKey machineKey := by
    clear hframe
    induction hrun with
    | refl =>
      obtain ⟨start, hmap, -, hstream⟩ := first_frame_eq_some hstart
      unfold StreamState.Own
      rw [hstream]
      exact own_row_start hmap
    | tail _ hstep ih => exact ih.step hstep
  obtain ⟨row, hrow, hdelta⟩ | hnamed := frame_cases hframe
  · obtain ⟨hmem, hid⟩ := Db.get_node_by_id_eq_some.mp hrow
    obtain ⟨hkey, hmachine⟩ := hown row hmem hid
    exact .inl ⟨row, hrow, hkey, hmachine, hdelta⟩
  · exact .inr hnamed

/-! ## A stream that changes hands -/

/-- A second node, which is removed when it leaves, asks for a stream. -/
def guestRequest : MapRequest :=
  { version := 113, nodeKey := ⟨2⟩, stream := true, keepAlive := true }

def guestServer : World :=
  runOps openServer [registerFirst, .createPreAuthKey "guest" true true none none, registerGuest 2]
    (openServer.withStore Db.empty stillEnv)

/-- Take steps one after the other. -/
def StreamState.runActs (cp : ControlPlane) (acts : List StreamAct) (s : StreamState) :
    Option StreamState :=
  acts.foldlM (fun s act => s.next cp act) s

def guestStream (acts : List StreamAct) : Option StreamState :=
  (firstFrame openServer ⟨2⟩ guestRequest guestServer).bind (StreamState.runActs openServer acts)

def newcomer (key : Nat) : StreamAct := .op (.register ⟨key⟩ (registerRequest key))

def thirdChanged : ChangeBatch := { events := [.nodeChanged 3] }

theorem guest_stream_newcomer :
    (guestStream []).map (fun s => decide (s.world.db.nextId ≠ s.stream.nodeId)) = some true ∧
      ((guestStream [newcomer 3]).bind fun s =>
        s.stream.frame openServer s.world thirdChanged).map
          (·.peersChanged.isSome) = some true := by
  decide +kernel

/-- A newcomer is sent to the guest's stream as a peer of the guest. -/
theorem stream_carries_own_view_guest :
    ∃ s response, guestStream [newcomer 3] = some s ∧
      s.stream.frame openServer s.world thirdChanged = some response ∧
      ∃ row, s.world.db.getNodeById s.stream.nodeId = some row ∧ row.nodeKey = ⟨2⟩ ∧
        row.machineKey = ⟨2⟩ := by
  obtain ⟨hnext, hframe⟩ := guest_stream_newcomer
  obtain ⟨response, hframe, hchanged⟩ := Option.map_eq_some_iff.mp hframe
  obtain ⟨s, hs, hframe⟩ := Option.bind_eq_some_iff.mp hframe
  obtain ⟨s₀, hs₀, hsteps⟩ := Option.bind_eq_some_iff.mp hs
  cases hsteps
  have hleaves : LeavesRow s₀.stream.nodeId s₀.world (.register ⟨3⟩ (registerRequest 3)) := by
    refine ⟨fun _ => ?_, fun machineKey request row hop _ hcompletes => ?_⟩
    · obtain ⟨other, hother, hnext⟩ := Option.map_eq_some_iff.mp hnext
      rw [guestStream, hs₀] at hother
      cases hother
      exact of_decide_eq_true hnext
    · cases hop
      obtain ⟨authId, _, _, _, hauth, -⟩ := hcompletes
      exact absurd rfl (auth_id_from_followup_ne_empty hauth)
  have hstep : LeavingStep openServer s₀ _ :=
    ⟨newcomer 3, fun op hop => by cases hop; exact hleaves, rfl⟩
  obtain ⟨row, hrow, hkey, hmachine, -⟩ | hnamed :=
    stream_carries_own_view openServer guestServer ⟨2⟩
    guestRequest s₀ _ hs₀ (.single hstep) thirdChanged response hframe
  · exact ⟨_, response, hs, hframe, row, hrow, hkey, hmachine⟩
  · rw [hnamed] at hchanged
    cases hchanged

/-- The guest left, its id went to a newcomer, and then another newcomer came. -/
def guestGone : List StreamAct :=
  [.subscribe, .op (.logout ⟨2⟩ ⟨2⟩), newcomer 3, .memory .flush, .receive, newcomer 4,
    .memory .flush]

/-- The guest's stream is sent a peer of the node that got the guest's id. -/
theorem stream_recycled :
    (guestStream guestGone).map (fun s =>
      ((s.position.bind fun position => s.world.bus.sent[position]?).bind fun batch =>
        (s.stream.frame openServer s.world batch).map fun response =>
          (response.peersChanged.getD []).map WireNode.id,
        (s.world.db.getNodeById s.stream.nodeId).map fun row => (row.nodeKey, row.machineKey))) =
      some (some [3], some (⟨3⟩, ⟨3⟩)) := by
  decide +kernel

end Crabscale.Server
