import Crabscale.Control.StableIds

/-!
# What a map request leaves alone

A map request writes at most the row of the requesting node, and no other table. A request that
opens a stream changes only the disco key and the time last seen (`handle_map_touches_own`).
-/

namespace Crabscale.Control

open Rust Proto Policy Interaction Interaction.Program ControlPlane

variable {cp : ControlPlane} {machineKey : MachineKey} {request : MapRequest}

structure OwnRow (machineKey : MachineKey) (request : MapRequest) (before after : Node) : Prop where
  nodeKey : before.nodeKey = request.nodeKey
  machineKey : before.machineKey = machineKey
  same : SameRow after before
  streaming : request.stream = true →
    after = { before with discoKey := after.discoKey, lastSeen := after.lastSeen }

structure TouchesOnlyOwn (machineKey : MachineKey) (request : MapRequest) (db db' : Db) : Prop where
  users : db'.users = db.users
  logins : db'.logins = db.logins
  preAuthKeys : db'.preAuthKeys = db.preAuthKeys
  pending : db'.pending = db.pending
  sshAuths : db'.sshAuths = db.sshAuths
  nodes : List.Forall₂ (fun before after => after = before ∨ OwnRow machineKey request before after)
    db.nodes db'.nodes

theorem TouchesOnlyOwn.refl (db : Db) : TouchesOnlyOwn machineKey request db db where
  users := rfl
  logins := rfl
  preAuthKeys := rfl
  pending := rfl
  sshAuths := rfl
  nodes := List.forall₂_same.mpr fun _ _ => .inl rfl

theorem map_row_streaming {w : World} {before node : Node} (hstream : request.stream = true)
    (hversion : minSupportedCapver ≤ request.version)
    (hrow : cp.mapRow w before request = some node) :
    node = { before with discoKey := node.discoKey, lastSeen := node.lastSeen } := by
  have hreads : (request.stream && streamingReadOnly request.version) = true := by
    rw [hstream, Bool.true_and]
    exact decide_eq_true (Nat.le_trans (by decide) hversion)
  unfold mapRow mapTags updatesHost observeRequest at hrow
  rw [hreads] at hrow
  cases hrow
  rfl

theorem upsert_over_row {db : Db} {node row : Node}
    (hrow : db.getNodeByNodeKey node.nodeKey = some row) (hsame : SameRow node row)
    (hstable : row.stableId ≠ "") :
    (db.upsertNode node).2 = db ∨ (db.upsertNode node).2.toTables = { db.toTables with
      nodes := db.nodes.map fun stored =>
        if stored.nodeKey = node.nodeKey then { node with id := stored.id } else stored } := by
  cases hfirst : db.insertOrUpdateNode node with
  | error error =>
    rw [Db.upsert_failed hfirst]
    exact .inl rfl
  | ok db₁ =>
    have hnode : node.stableId ≠ "" := hsame.stableId ▸ hstable
    have hdone : (db.upsertNode node).2 = db₁ := by
      rw [Db.upsertNode, hfirst]
      dsimp only
      rw [if_neg hnode]
    rw [Db.insert_or_update_existing hrow] at hfirst
    rw [hdone]
    exact .inr (Db.commit_ok hfirst)

theorem handle_map_writes (cp : ControlPlane) (machineKey : MachineKey) (request : MapRequest)
    (w : World) :
    (exec (cp.handleMap machineKey request) w).2.db = w.db ∨
      minSupportedCapver ≤ request.version ∧ ∃ node, MapRowOf cp machineKey request w node ∧
        (exec (cp.handleMap machineKey request) w).2.db = (w.db.upsertNode node).2 := by
  by_cases hversion : request.version < minSupportedCapver
  · have hthrow : (cp.recordMapRequest machineKey request).run handler w =
        (.error (.unsupportedVersion request.version), w) := by
      unfold recordMapRequest
      dsimp only
      rw [if_pos hversion]
      rfl
    rw [exec, handleMap, run_bind_error handler hthrow]
    exact .inl rfl
  let Done (db : Db) : Prop := db = w.db ∨ minSupportedCapver ≤ request.version ∧
    ∃ node, MapRowOf cp machineKey request w node ∧ db = (w.db.upsertNode node).2
  have hrecord : Yields (· = w) (cp.recordMapRequest machineKey request)
      (fun _ w' => Done w'.db) (fun _ w' => Done w'.db) := by
    refine (record_map_request_spec any_call_allows_quiet fun _ _ _ _ => trivial).weaken
      (fun _ hw => hw) ?_ ?_
    · rintro node w' ⟨hof, ⟨stored, hrun⟩, -⟩
      exact .inr ⟨not_lt.mp hversion, node, hof, by rw [hrun]⟩
    · rintro _ w' (hsame | ⟨node, error, hof, hrun⟩)
      · exact .inl hsame
      · exact .inr ⟨not_lt.mp hversion, node, hof, by rw [hrun]⟩
  have hdone : Yields (· = w) (cp.handleMap machineKey request)
      (fun _ w' => Done w'.db) (fun _ w' => Done w'.db) :=
    hrecord.bind fun node =>
      (answer_map_request_off_tables node request).triple (fun _ _ _ _ => trivial)
        fun c hc w' hw' => (hc.db_eq w').symm ▸ hw'
  exact hdone.either rfl

/-- A map request, whether it is answered or fails, leaves every row but that of its node, and a
stream changes nothing of that row but the disco key and the time of the last contact. -/
theorem handle_map_touches_own (cp : ControlPlane) (machineKey : MachineKey) (request : MapRequest)
    (w : World) (hstable : ∀ row ∈ w.db.nodes, row.stableId ≠ "") :
    TouchesOnlyOwn machineKey request w.db (exec (cp.handleMap machineKey request) w).2.db := by
  obtain hsame | ⟨hversion, node, ⟨before, hbefore, hmachine, hrow⟩, hdb⟩ :=
    handle_map_writes cp machineKey request w
  · rw [hsame]
    exact .refl _
  rw [hdb]
  have hsame := map_row_same_row hrow
  obtain ⟨hmem, hkey⟩ := Db.get_node_by_node_key_eq_some.mp hbefore
  have hnodeKey : node.nodeKey = request.nodeKey := hsame.nodeKey.trans hkey
  obtain hunchanged | htables := upsert_over_row (hnodeKey ▸ hbefore) hsame (hstable before hmem)
  · rw [hunchanged]
    exact .refl _
  refine ⟨by rw [htables], by rw [htables], by rw [htables], by rw [htables], by rw [htables], ?_⟩
  rw [htables, List.forall₂_map_right_iff]
  refine List.forall₂_same.mpr fun stored hstored => ?_
  split
  case isFalse => exact .inl rfl
  case isTrue hown =>
    -- Node keys are unique, so the row that was found is the only one with this key.
    obtain rfl : before = stored :=
      List.inj_on_of_nodup_map w.db.valid.nodeKeys hmem hstored (hsame.nodeKey.symm.trans hown.symm)
    have hid : { node with id := before.id } = node := by rw [← hsame.id]
    rw [hid]
    exact .inr ⟨hkey, hmachine, hsame, fun hstream => map_row_streaming hstream hversion hrow⟩

/-- The node registered, and opens a stream. -/
theorem handle_map_touches_own_first :
    TouchesOnlyOwn ⟨1⟩ { version := 113, nodeKey := ⟨1⟩, discoKey := ⟨7⟩, stream := true }
      (registerFirst.exec openServer (openServer.withStore Db.empty stillEnv)).db
      (exec (openServer.handleMap ⟨1⟩
          { version := 113, nodeKey := ⟨1⟩, discoKey := ⟨7⟩, stream := true })
        (registerFirst.exec openServer (openServer.withStore Db.empty stillEnv))).2.db :=
  handle_map_touches_own openServer ⟨1⟩ _ _ (by decide +kernel)

end Crabscale.Control
