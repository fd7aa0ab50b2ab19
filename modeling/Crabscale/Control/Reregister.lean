import Crabscale.Control.Followups
import Crabscale.Control.Provenance
import Crabscale.Control.Upsert

/-!
# Registering again

A client that registers again or reports its host information runs the change of tags again. Without
tags in the request the node gives its tags up, which a node without an owner cannot do
(`tagged_node_locked_out`). `reregistration_unchanged_iff` says which requests are answered and
leave the row.
-/

namespace Crabscale.Control

open Rust Proto Policy Interaction Interaction.Program ControlPlane

variable {cp : ControlPlane} {op : Op} {w₀ w : World} {row : Node}

/-! ## The configured rows come first -/

/-- No node is stored before the configured rows. -/
def Seeded (cp : ControlPlane) (db : Db) : Prop := db.nodes ≠ [] → Bootstrapped cp db

theorem Seeded.call {c : Call} (hids : cp.HasIds) (h : Seeded cp w.db) (hc : Acts cp op w₀ w c) :
    Seeded cp (handler c w).2.db := by
  intro hnodes
  suffices hboot : Bootstrapped cp w.db from
    hboot.mono (c.user_ids_subset w) (c.login_ids_subset w) (c.key_prefixes_subset w)
  obtain ⟨row, hrow⟩ := List.exists_mem_of_ne_nil _ hnodes
  obtain ⟨stored, hstored, -⟩ | ⟨node, id, stableId, rfl, -⟩ := Call.mem_nodes hrow
  · exact h (List.ne_nil_of_mem hstored)
  cases hc with
  | edit _ hrow _ => exact h (List.ne_nil_of_mem hrow)
  | reauthorize _ hrow _ _ _ _ _ => exact h (List.ne_nil_of_mem hrow)
  | enroll _ hconfigured _ _ _ => exact hconfigured.boot hids
  | complete _ hconfigured _ _ _ _ => exact hconfigured.boot hids

theorem Seeded.run {C : World → Op → Prop} {P : World → Prop} {start : World} (hids : cp.HasIds)
    (h : Seeded cp start.db) (hrun : Runs cp C P start w) : Seeded cp w.db := by
  induction hrun with
  | refl _ => exact h
  | step _ _ _ ih =>
    exact Op.keeps_world (I := fun w' => Seeded cp w'.db) (fun _ _ hw hc => hw.call hids hc) ih

/-! ## Rows that are written over -/

def Kept (row : Node) (db : Db) : Prop :=
  ∃ after, db.getNodeByNodeKey row.nodeKey = some after ∧ after.id = row.id ∧
    after.stableId = row.stableId ∧ after.userId = row.userId ∧ after.tags = row.tags ∧
    after.addresses = row.addresses

theorem kept_of_mem {db : Db} (hrow : row ∈ db.nodes) : Kept row db :=
  ⟨row, Db.get_node_by_node_key_eq_some.mpr ⟨hrow, rfl⟩, rfl, rfl, rfl, rfl, rfl⟩

/-- An upsert over a stored row leaves the node under the row's id, and gives it a stable id if it
had none and was written under that id. -/
theorem Db.upsert_over {db db' : Db} {node stored : Node} (hrow : row ∈ db.nodes)
    (hkey : row.nodeKey = node.nodeKey) (h : db.upsertNode node = (.ok stored, db')) :
    ∃ stableId, db'.getNodeByNodeKey row.nodeKey = some { node with id := row.id, stableId } ∧
      (node.id = row.id →
        stableId = if node.stableId = "" then stableIdOf row.id else node.stableId) := by
  obtain ⟨db₁, hfirst, hcases⟩ := upsert_ok_cases h
  obtain ⟨id, hwritten⟩ := insert_or_update_written hfirst
  obtain ⟨rfl, -⟩ := hwritten.existing row (get_node_by_node_key_eq_some.mpr ⟨hrow, hkey⟩)
  obtain ⟨hempty, hset, -⟩ | ⟨hne, rfl, -⟩ := hcases
  · have hown (hsame : node.id = row.id) : row.id = targetId node db₁ := by
      rw [targetId, if_neg (hsame ▸ (db.valid.nodeIdsPos row hrow).ne'), hsame]
    -- The second statement goes to this row or to another one.
    refine ⟨if row.id = targetId node db₁ then stableIdOf (targetId node db₁) else node.stableId,
      get_node_by_node_key_eq_some.mpr ⟨?_, hkey.symm⟩, fun hsame => ?_⟩
    · rw [nodes_set_stable_id hset]
      refine List.mem_map.mpr ⟨_, hwritten.written, ?_⟩
      dsimp only
      split <;> rfl
    · rw [if_pos (hown hsame), if_pos hempty, ← hown hsame]
  · exact ⟨node.stableId, get_node_by_node_key_eq_some.mpr ⟨hwritten.written, hkey.symm⟩,
      fun _ => (if_neg hne).symm⟩

theorem Db.upsert_edit {db db' : Db} {node stored : Node} (hrow : row ∈ db.nodes)
    (hsame : SameRow node row) (h : db.upsertNode node = (.ok stored, db')) :
    db'.getNodeByNodeKey row.nodeKey =
      some { node with
        stableId := if node.stableId = "" then stableIdOf row.id else node.stableId } := by
  obtain ⟨stableId, hafter, hstable⟩ := Db.upsert_over hrow hsame.nodeKey.symm h
  rw [hafter, hstable hsame.id, ← hsame.id]

theorem Db.upsert_edit_ok {db : Db} {node : Node} (hrow : row ∈ db.nodes) (hsame : SameRow node row)
    (hne : row.stableId ≠ "") (howner : node.userId = row.userId) :
    ∃ stored db', db.upsertNode node = (.ok stored, db') := by
  have hlookup := get_node_by_node_key_eq_some.mpr ⟨hrow, hsame.nodeKey.symm⟩
  have hother : ∀ other ∈ db.nodes, other.nodeKey ≠ node.nodeKey →
      other.stableId ≠ node.stableId := by
    intro other hmem hkey hstable
    have heq : other = row := List.inj_on_of_nodup_map db.valid.stableIds hmem hrow
      (hstable.trans hsame.stableId)
    rw [heq] at hkey
    exact hkey hsame.nodeKey.symm
  have huser : ∀ userId ∈ node.userId, userId ∈ db.users.map User.id := by
    rw [howner]
    exact db.valid.nodeUsers row hrow
  have hfirst := (insert_or_update_existing hlookup).trans
    (commit_of_valid (rewrite_valid hother huser))
  unfold upsertNode
  rw [hfirst]
  simp only [hsame.stableId, hne, if_false]
  exact ⟨_, _, rfl⟩

/-! ## Tags -/

def SameTags (row : Node) (hostinfo : Option Hostinfo) : Prop :=
  sortDedup (requestedTags hostinfo) = sortDedup (row.tags.getD [])

theorem retag_same {owner : Option String} {hostinfo : Option Hostinfo}
    (h : SameTags row hostinfo) : cp.retag owner row (requestedTags hostinfo) = some row :=
  if_pos h

theorem retag_other {owner : Option String} {hostinfo : Option Hostinfo} {updated : Node}
    (h : ¬SameTags row hostinfo)
    (hretag : cp.retag owner row (requestedTags hostinfo) = some updated) :
    updated.tags ≠ row.tags := by
  intro htags
  unfold retag at hretag
  rw [if_neg (show ¬sortDedup _ = sortDedup _ from h)] at hretag
  split at hretag
  case isTrue hnone =>
    split at hretag <;> cases hretag
    apply h
    rw [SameTags, hnone, ← htags]
    rfl
  case isFalse =>
    split at hretag <;> cases hretag
    apply h
    rw [SameTags, ← htags, Option.getD_some, sort_dedup_idem]

theorem not_kept_of_edit {db db' : Db} {node stored : Node} (hrow : row ∈ db.nodes)
    (hsame : SameRow node row) (htags : node.tags ≠ row.tags)
    (h : db.upsertNode node = (.ok stored, db')) : ¬Kept row db' := by
  rintro ⟨after, hafter, -, -, -, hkept, -⟩
  rw [Db.upsert_edit hrow hsame h] at hafter
  cases hafter
  exact htags hkept

/-! ## Registering again -/

/-- The registration requests that are answered and leave their node as it is: the key's expiry is
past and the node has tags, or the node keeps its key and asks for the tags that it has. -/
inductive RegistersAgain (cp : ControlPlane) (row : Node) (request : RegisterRequest)
    (now : String) :
    Prop where
  | expired (hfollowup : request.followup = "") (hexpiry : request.expiry ≠ "")
      (hpast : cp.ext.isPast request.expiry now = true) (htags : row.tags.isSome = true)
  | relogin (hfollowup : request.followup = "")
      (hexpiry : request.expiry = "" ∨ cp.ext.isPast request.expiry now = false ∧
        cp.ext.isFuture request.expiry now = false)
      (htags : SameTags row request.hostinfo)

theorem relogin_same {request : RegisterRequest} (h : SameTags row request.hostinfo) (w : World) :
    exec (cp.relogin row request) w = (.ok cp.authorizedResponse, w) := by
  have hunchanged : cp.retagResult (w.ownerLogin row) row (requestedTags request.hostinfo) =
      .ok (false, row) := by
    unfold retagResult
    rw [retag_same h]
    exact congrArg (fun changed => Except.ok (changed, row)) (decide_eq_false (not_not.mpr h))
  rw [relogin, exec, run_bind_ok handler (reads_node_owner_login row w),
    apply_request_tags_done cp owner_login_none, hunchanged]
  rfl

theorem relogin_other {request : RegisterRequest} (hrow : row ∈ w.db.nodes)
    (h : ¬SameTags row request.hostinfo) :
    Yields (· = w) (cp.relogin row request) (fun _ w' => ¬Kept row w'.db) := by
  unfold relogin
  refine triple_bind_run (safe_any _ _) (reads_node_owner_login row w) ?_
  rw [apply_request_tags_done cp owner_login_none, retagResult]
  cases hretag : cp.retag (w.ownerLogin row) row (requestedTags request.hostinfo) with
  | none => exact triple_bind_run_error trivial rfl trivial
  | some updated =>
    refine triple_bind_run trivial rfl ?_
    dsimp only
    rw [decide_eq_true (show sortDedup _ ≠ sortDedup _ from h)]
    refine Triple.bind (M := fun _ w' => ¬Kept row w'.db) ?_ fun _ => triple_pure fun _ hw => hw
    refine Triple.bind (M := fun _ w' => ¬Kept row w'.db)
      (triple_store (fun _ _ => trivial) ?_ fun _ _ _ _ _ => trivial) fun _ =>
        triple_perform (fun _ _ => trivial) fun _ hw => hw
    intro w' hw' stored db hrun
    subst hw'
    exact not_kept_of_edit hrow (retag_same_row hretag) (retag_other h hretag) hrun

section Register

variable {request : RegisterRequest} {now : String}

theorem register_existing_again (hauthorized : row.machineAuthorized = true)
    (h : RegistersAgain cp row request now) (w : World) :
    exec (cp.registerExisting row.machineKey request now row) w =
      (.ok cp.authorizedResponse, w) := by
  unfold registerExisting
  rw [if_neg (not_not.mpr rfl)]
  cases h with
  | expired _ hexpiry hpast htags =>
    rw [if_pos (by simp [hexpiry, hpast]), logoutNode, if_pos htags]
    rfl
  | relogin _ hexpiry htags =>
    have hnot : ∀ b : Bool, request.expiry = "" ∨ b = false →
        ¬(decide (request.expiry ≠ "") && b) = true := by
      rintro b (hempty | rfl) <;> simp_all
    rw [if_neg (hnot _ (hexpiry.imp_right And.left)),
      if_neg (hnot _ (hexpiry.imp_right And.right)),
      if_pos hauthorized]
    exact relogin_same htags w

theorem triple_refused {p : ControlM RegisterResponse}
    (h : Yields (· = w) p (fun response _ => response.machineAuthorized = false)) :
    Yields (· = w) p
      (fun response w' => response.machineAuthorized = true → ¬Kept row w'.db) := by
  refine h.weaken (fun _ hw => hw) (fun response w' hfalse htrue => ?_) fun _ _ _ => trivial
  rw [hfalse] at htrue
  cases htrue

theorem logout_node_unauthorized (htags : row.tags.isSome ≠ true) (nodeKeyExpired : Bool) :
    Yields (· = w) (cp.logoutNode row nodeKeyExpired)
      (fun response _ => response.machineAuthorized = false) := by
  unfold logoutNode
  rw [if_neg htags]
  split
  · exact Triple.bind (any_triple _ _) fun _ => Triple.bind (any_triple _ _) fun _ =>
      triple_pure fun _ _ => rfl
  · exact Triple.bind (any_triple _ _) fun _ => Triple.bind (any_triple _ _) fun _ =>
      triple_pure fun _ _ => rfl

theorem register_existing_other (hrow : row ∈ w.db.nodes)
    (hauthorized : row.machineAuthorized = true)
    (hfollowup : request.followup = "") (h : ¬RegistersAgain cp row request now) :
    Yields (· = w) (cp.registerExisting row.machineKey request now row)
      (fun response w' => response.machineAuthorized = true → ¬Kept row w'.db) := by
  unfold registerExisting
  rw [if_neg (not_not.mpr rfl), if_pos hauthorized]
  split
  case isTrue hpast =>
    rw [Bool.and_eq_true, decide_eq_true_eq] at hpast
    exact triple_refused (logout_node_unauthorized
      (fun htags => h (.expired hfollowup hpast.1 hpast.2 htags)) true)
  case isFalse hpast =>
  split
  · exact triple_refused (triple_pure fun _ _ => rfl)
  case isFalse hfuture =>
  refine (relogin_other hrow fun htags => h (.relogin hfollowup ?_ htags)).weaken (fun _ hw => hw)
    (fun _ _ hkept _ => hkept) fun _ _ _ => trivial
  by_cases hexpiry : request.expiry = ""
  · exact .inl hexpiry
  · exact .inr (by simpa [hexpiry] using And.intro hpast hfuture)

theorem poll_followup_spent {machineKey : MachineKey}
    (hspent : ∀ authId, authIdFromFollowup request.followup = some authId →
      w.db.getPending authId = none) (now : String) :
    Yields (· = w) (cp.pollFollowup machineKey request now)
      (fun response _ => response.machineAuthorized = false) := by
  cases hauth : authIdFromFollowup request.followup with
  | none =>
    unfold pollFollowup
    rw [hauth]
    exact triple_pure fun _ _ => rfl
  | some authId =>
    have hpoll : Yields (At w w.env.position (· = w.db))
        (cp.pollFollowup machineKey request now)
        (fun response _ => response.machineAuthorized = false) := by
      refine poll_followup_unauthorized hauth (fun entry userId tags hentry => ?_) now
      rw [hspent authId hauth] at hentry
      cases hentry
    refine hpoll.pre fun w' hw' => ?_
    rw [hw']
    exact ⟨rfl, .refl w⟩

/-- With the configured rows stored, `register` decides at once. -/
theorem register_run (hboot : Bootstrapped cp w.db) (machineKey : MachineKey) :
    exec (cp.register machineKey request) w =
      match exec (cp.registerAt machineKey request (cp.nowAt w)) w.tick with
      | (.ok response, w') => (.ok response, w')
      | (.error error, w') => (.ok { error := error.display }, w') := by
  unfold exec register
  rw [run_bind, run_attempt, register_body_eq, run_bind_ok handler (bootstrap_run hboot),
    run_bind_ok handler (now_run cp w)]
  obtain ⟨_ | _, _⟩ := (cp.registerAt machineKey request (cp.nowAt w)).run handler w.tick <;> rfl

theorem register_ok {machineKey : MachineKey} {Q : RegisterResponse → World → Prop}
    (hboot : Bootstrapped cp w.db)
    (hat : Yields (· = w.tick) (cp.registerAt machineKey request (cp.nowAt w)) Q)
    {response : RegisterResponse} {w' : World}
    (hrun : exec (cp.register machineKey request) w = (.ok response, w'))
    (hanswer : response.machineAuthorized = true) : Q response w' := by
  rw [register_run hboot] at hrun
  have hend := (hat w.tick rfl).2
  unfold exec at hrun
  generalize (cp.registerAt machineKey request (cp.nowAt w)).run handler w.tick = result
    at hend hrun
  obtain ⟨error | answer, w₁⟩ := result
  · cases hrun
    cases hanswer
  · cases hrun
    exact hend

/-- `register` with a request that is none to register again is refused or changes the row. -/
theorem register_at_other (hrow : row ∈ w.db.nodes) (hauthorized : row.machineAuthorized = true)
    (hkey : request.nodeKey = row.nodeKey)
    (hspent : ∀ authId, authIdFromFollowup request.followup = some authId →
      w.db.getPending authId = none) (h : ¬RegistersAgain cp row request now) :
    Yields (· = w) (cp.registerAt row.machineKey request now)
      (fun response w' => response.machineAuthorized = true → ¬Kept row w'.db) := by
  unfold registerAt
  split
  · exact triple_refused (poll_followup_spent hspent now)
  case isFalse hfollowup =>
    refine triple_bind_run (safe_any _ _) (reads_get_node_by_node_key request.nodeKey w) ?_
    dsimp only
    rw [Db.get_node_by_node_key_eq_some.mpr ⟨hrow, hkey.symm⟩]
    exact register_existing_other hrow hauthorized (not_not.mp hfollowup) h

/-- A registration request for an authorized node is answered and leaves the node exactly if it is
one to register again. -/
theorem register_unchanged_iff (hboot : Bootstrapped cp w.db) (hrow : row ∈ w.db.nodes)
    (hauthorized : row.machineAuthorized = true) (hkey : request.nodeKey = row.nodeKey)
    (hspent : ∀ authId, authIdFromFollowup request.followup = some authId →
      w.db.getPending authId = none) :
    (∃ response w', exec (cp.register row.machineKey request) w = (.ok response, w') ∧
      response.machineAuthorized = true ∧ Kept row w'.db) ↔
    RegistersAgain cp row request (cp.nowAt w) := by
  constructor
  · rintro ⟨response, w', hrun, hanswer, hkept⟩
    by_contra hnot
    exact register_ok hboot (register_at_other hrow hauthorized hkey hspent hnot) hrun hanswer
      hanswer hkept
  · intro h
    have hfollowup : request.followup = "" := by cases h <;> assumption
    have hat : exec (cp.registerAt row.machineKey request (cp.nowAt w)) w.tick =
        (.ok cp.authorizedResponse, w.tick) := by
      unfold exec registerAt
      rw [if_neg (not_not.mpr hfollowup),
        run_bind_ok handler (reads_get_node_by_node_key request.nodeKey w.tick)]
      dsimp only [World.tick]
      rw [Db.get_node_by_node_key_eq_some.mpr ⟨hrow, hkey.symm⟩]
      exact register_existing_again hauthorized h w.tick
    rw [register_run hboot, hat]
    exact ⟨_, _, rfl, rfl, kept_of_mem hrow⟩

end Register

/-! ## Reporting the host information again -/

section Map

variable {request : MapRequest}

/-- The map requests that are answered and leave their node as it is: well-formed ones that ask for
the tags that the node has, from a node with a stable id. -/
structure UpdatesAgain (row : Node) (request : MapRequest) : Prop where
  version : minSupportedCapver ≤ request.version
  endpoints : request.endpointTypes.length = request.endpoints.length
  stableId : row.stableId ≠ ""
  tags : SameTags row request.hostinfo

theorem observe_addresses (before : Node) (request : MapRequest) (now : String) :
    (observeRequest before request now).addresses = before.addresses := by
  unfold observeRequest
  dsimp only
  split
  · rfl
  · cases request.hostinfo <;> rfl

theorem map_row_eq (hstream : request.stream = false) (hhost : request.hostinfo.isSome = true) :
    cp.mapRow w row request =
      cp.retag (w.ownerLogin (observeRequest row request (cp.nowAt w)))
        (observeRequest row request (cp.nowAt w)) (requestedTags request.hostinfo) := by
  have hupdates : updatesHost request = true := by
    simp [updatesHost, hstream, hhost]
  exact if_pos hupdates

theorem same_tags_observe {now : String} :
    SameTags (observeRequest row request now) request.hostinfo ↔ SameTags row request.hostinfo := by
  unfold SameTags
  rw [(observe_owner row request now).2.1]

theorem handle_map_well_formed {machineKey : MachineKey} {outcome : MapOutcome} {w' : World}
    (h : exec (cp.handleMap machineKey request) w = (.ok outcome, w')) :
    minSupportedCapver ≤ request.version ∧
      request.endpointTypes.length = request.endpoints.length := by
  unfold exec handleMap recordMapRequest at h
  by_contra hnot
  rw [not_and_or, not_le] at hnot
  dsimp only at h
  split at h
  case isTrue => cases h
  case isFalse hversion =>
    rw [if_pos (hnot.resolve_left hversion)] at h
    cases h

theorem answer_map_request_ok {node : Node} {db : Db} (hstream : request.stream = false)
    (hencode : ∀ response compress, cp.ext.encodeError response compress = none) :
    Yields (fun w => w.db = db) (cp.answerMapRequest node request)
      (fun _ w => w.db = db) (fun _ _ => False) := by
  unfold answerMapRequest
  split
  · exact triple_pure fun _ hw => hw
  intro w hw
  refine (triple_bind_run (safe_any _ _) (reads_build_initial_map cp node request w) ?_) w rfl
  unfold encodeFrame
  rw [hencode, hstream]
  exact triple_bind_run trivial rfl (triple_pure fun _ h => h ▸ hw)

theorem handle_map_again (hrow : row ∈ w.db.nodes) (hkey : request.nodeKey = row.nodeKey)
    (hstream : request.stream = false) (hhost : request.hostinfo.isSome = true)
    (hencode : ∀ response compress, cp.ext.encodeError response compress = none)
    (h : UpdatesAgain row request) :
    Yields (· = w) (cp.handleMap row.machineKey request)
      (fun _ w' => Kept row w'.db) (fun _ _ => False) := by
  have hsame := observe_same_row row request (cp.nowAt w)
  have howner := observe_owner row request (cp.nowAt w)
  obtain ⟨stored, db, hwritten⟩ := Db.upsert_edit_ok hrow hsame h.stableId howner.1
  have hkept : Kept row db := by
    refine ⟨_, Db.upsert_edit hrow hsame hwritten, hsame.id, ?_, howner.1, howner.2.1,
      observe_addresses row request _⟩
    dsimp only
    rw [hsame.stableId, if_neg h.stableId]
  have htags := apply_map_tags_run cp w.tick (observeRequest row request (cp.nowAt w)) request
  have hmap : cp.mapRow w row request = some (observeRequest row request (cp.nowAt w)) :=
    (map_row_eq hstream hhost).trans (retag_same (same_tags_observe.mpr h.tags))
  rw [show cp.mapTags w.tick _ request = _ from hmap] at htags
  unfold handleMap
  refine Triple.bind (M := fun _ w' => w'.db = db) ?_ fun node =>
    (answer_map_request_ok hstream hencode).weaken (fun _ hw => hw) (fun _ _ hw => hw ▸ hkept)
      fun _ _ hfalse => hfalse
  unfold recordMapRequest
  dsimp only
  rw [if_neg (not_lt.mpr h.version), if_neg (not_not.mpr h.endpoints)]
  refine triple_bind_run (safe_any _ _) (reads_get_node_by_node_key request.nodeKey w) ?_
  dsimp only
  rw [Db.get_node_by_node_key_eq_some.mpr ⟨hrow, hkey.symm⟩, Option.filter_some,
    if_pos (decide_eq_true rfl)]
  refine triple_bind_run (safe_any _ _) (now_run cp w) (triple_bind_run (safe_any _ _) htags ?_)
  refine Triple.bind (M := fun _ w' => w'.db = db) (triple_store (fun _ _ => trivial) ?_ ?_)
    fun _ => ?_
  · rintro w' rfl result db' hrun
    cases hwritten.symm.trans hrun
    rfl
  · rintro w' rfl error db' hrun
    cases hwritten.symm.trans hrun
  have hpublish (event : ChangeEvent) : Yields (fun w' => w'.db = db)
      (publishChange event) (fun _ w' => w'.db = db) (fun _ _ => False) :=
    triple_perform (fun _ _ => trivial) fun _ hw => hw
  split
  · exact (hpublish _).bind fun _ => (hpublish _).bind fun _ => triple_pure fun _ hw => hw
  · exact (hpublish _).bind fun _ => triple_pure fun _ hw => hw

/-- A map request that reports the host information of a node is answered and leaves the node
exactly if it is one to report again. -/
theorem handle_map_unchanged_iff (hrow : row ∈ w.db.nodes) (hkey : request.nodeKey = row.nodeKey)
    (hstream : request.stream = false) (hhost : request.hostinfo.isSome = true)
    (hencode : ∀ response compress, cp.ext.encodeError response compress = none) :
    (∃ outcome w', exec (cp.handleMap row.machineKey request) w = (.ok outcome, w') ∧
      Kept row w'.db) ↔ UpdatesAgain row request := by
  constructor
  · rintro ⟨outcome, w', hrun, hkept⟩
    obtain ⟨hversion, hendpoints⟩ := handle_map_well_formed hrun
    obtain ⟨node, w₁, ⟨before, hbefore, -, hmap⟩, ⟨⟨stored, hwritten⟩, -⟩, hopened, -⟩ :=
      handle_map_ok hrun
    rw [Db.get_node_by_node_key_eq_some.mpr ⟨hrow, hkey.symm⟩] at hbefore
    cases hbefore
    have hsame := map_row_same_row hmap
    rw [hopened.db] at hkept
    refine ⟨hversion, hendpoints, fun hempty => ?_, by_contra fun hother => ?_⟩
    · obtain ⟨after, hafter, -, hstable, -⟩ := hkept
      rw [Db.upsert_edit hrow hsame hwritten] at hafter
      cases hafter
      rw [hempty, if_pos (hsame.stableId.trans hempty)] at hstable
      exact Db.stable_id_of_ne_empty _ hstable
    · rw [map_row_eq hstream hhost] at hmap
      have htags := retag_other (mt same_tags_observe.mp hother) hmap
      rw [(observe_owner row request _).2.1] at htags
      exact not_kept_of_edit hrow hsame htags hwritten hkept
  · intro h
    obtain ⟨outcome, w', hok, hkept⟩ :=
      (handle_map_again hrow hkey hstream hhost hencode h).total rfl
    exact ⟨outcome, w', hok, hkept⟩

end Map

/-! ## Runs -/

/-- In every run from an empty store, for every authorized node: the repeated registrations, and the
updates of the host information outside of a stream, that are answered and leave the node as it is.
A repeated followup is one whose registration is gone. -/
theorem reregistration_unchanged_iff (hids : cp.HasIds) {env : Env}
    (hrun : Runs cp (fun _ _ => True) (fun _ => True) (cp.withStore Db.empty env) w)
    (hrow : row ∈ w.db.nodes) (hauthorized : row.machineAuthorized = true) :
    (∀ request : RegisterRequest, request.nodeKey = row.nodeKey →
      (∀ authId, authIdFromFollowup request.followup = some authId →
        w.db.getPending authId = none) →
      ((∃ response w', exec (cp.register row.machineKey request) w = (.ok response, w') ∧
        response.machineAuthorized = true ∧ Kept row w'.db) ↔
      RegistersAgain cp row request (cp.nowAt w))) ∧
    ((∀ response compress, cp.ext.encodeError response compress = none) →
      ∀ request : MapRequest, request.nodeKey = row.nodeKey → request.stream = false →
      request.hostinfo.isSome = true →
      ((∃ outcome w', exec (cp.handleMap row.machineKey request) w = (.ok outcome, w') ∧
        Kept row w'.db) ↔ UpdatesAgain row request)) := by
  have hseeded : Seeded cp w.db := Seeded.run hids (fun hne => (hne rfl).elim) hrun
  refine ⟨fun request hkey hspent => ?_, fun hencode request hkey hstream hhost => ?_⟩
  · exact register_unchanged_iff (hseeded (List.ne_nil_of_mem hrow)) hrow hauthorized hkey hspent
  · exact handle_map_unchanged_iff hrow hkey hstream hhost hencode

theorem first_node_stored : firstNode oneNode ∈ oneNode.db.nodes := by
  decide +kernel

/-- The first node registers again with its key. -/
theorem reregistration_unchanged_first :
    ∃ response w', exec (openServer.register ⟨1⟩ (registerRequest 1)) oneNode = (.ok response, w') ∧
      response.machineAuthorized = true ∧ Kept (firstNode oneNode) w'.db := by
  have hrun : Runs openServer (fun _ _ => True) (fun _ => True)
      (openServer.withStore Db.empty stillEnv) oneNode :=
    .step (.refl trivial) trivial trivial
  have hmachine : (firstNode oneNode).machineKey = ⟨1⟩ := by decide +kernel
  rw [← hmachine]
  refine ((reregistration_unchanged_iff ⟨by decide, by decide⟩ hrun first_node_stored
    (by decide +kernel)).1 (registerRequest 1) (by decide +kernel) (fun authId hauth => ?_)).mpr
    (.relogin rfl (.inl rfl) (by unfold SameTags; decide +kernel))
  exact (auth_id_from_followup_ne_empty hauth rfl).elim

def repeatTagged : RegisterRequest :=
  { version := 113, nodeKey := ⟨1⟩, auth := some { authKey := formatAuthKey "web" "token" } }

/-- A node that a tagged key authorized is refused when its machine repeats the request, and when it
reports its host information. -/
theorem tagged_node_locked_out :
    (exec (taggingServer.register ⟨1⟩ repeatTagged) taggedKey).1.toOption.map
        RegisterResponse.machineAuthorized = some true ∧
      taggedNode.db.authorizes ⟨1⟩ = true ∧
      (exec (taggingServer.register ⟨1⟩ repeatTagged) taggedNode).1.toOption =
        some { error := (ControlError.policy
          "cannot return a tagged node to user ownership without a user").display } ∧
      (exec (taggingServer.handleMap ⟨1⟩ { version := 113, nodeKey := ⟨1⟩, hostinfo := some {} })
        taggedNode).1.toOption = none := by
  decide +kernel

end Crabscale.Control
