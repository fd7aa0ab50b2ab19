import Crabscale.Control.View
import Crabscale.Interaction.Hoare
import Crabscale.Interaction.Pool

/-!
# Rules for the calls of the control plane

The rules of `Triple` and `Obeys` for the three kinds of calls, and the specification of `handleMap`
built with them: the row it writes (`mapRow`) and the map it answers with.
-/

namespace Crabscale.Control

open Rust Proto Policy Interaction Interaction.Program ControlPlane

/-! ## Calls that keep the database -/

def Call.Quiet : Call → Prop
  | .store (.getUser _) | .store (.getUserByLoginName _) | .store (.getLogin _)
  | .store (.getLoginByProviderSubject _ _) | .store (.getNodeByNodeKey _) | .store (.getNodeById _)
  | .store .listNodes | .store (.getPreAuthKey _) | .store (.getPending _) | .store (.getSshAuth _)
  | .store .listSshAuths => True
  | .store _ => False
  | .memory (.sessionOpen _ _ _) | .memory (.sessionClose _ _) | .memory (.sessionTick _) => False
  | .memory _ | .env _ => True

/-- The quiet calls and those on the sessions. -/
def Call.OffTables : Call → Prop
  | .memory _ => True
  | c => c.Quiet

variable {c : Call}

theorem Call.Quiet.off_tables (hc : c.Quiet) : c.OffTables := by
  cases c with
  | memory c => trivial
  | _ => exact hc

theorem Call.OffTables.db_eq (hc : c.OffTables) (w : World) : (handler c w).2.db = w.db := by
  cases c with
  | store c => cases c <;> first | rfl | exact hc.elim
  | memory c => cases c <;> rfl
  | env c => rfl

theorem Call.Quiet.db_eq (hc : c.Quiet) (w : World) : (handler c w).2.db = w.db :=
  hc.off_tables.db_eq w

def AllowsQuiet (G : World → Call → Prop) : Prop := ∀ w c, c.Quiet → G w c

theorem calls_store {P : Call → Prop} {c : StoreCall} (hc : P (.store c)) : (store c).Calls P := by
  refine ⟨hc, fun answer => ?_⟩
  cases answer <;> trivial

theorem any_call_allows_quiet : AllowsQuiet (anyCall (S := signature)) := fun _ _ _ => trivial

/-- A run that may make any call. -/
abbrev Yields {α : Type} (P : World → Prop) (p : ControlM α) (Q : α → World → Prop)
    (E : ControlError → World → Prop := fun _ _ => True) : Prop :=
  Triple handler anyCall P p Q E

section Rules

variable {G : World → Call → Prop} {P : World → Prop} {E : ControlError → World → Prop}

theorem quiet_safe {α : Type} {p : ControlM α} (hp : p.Calls Call.Quiet) (hG : AllowsQuiet G)
    (w : World) : p.Safe handler G w :=
  hp.safe (fun c hc w => hG w c hc) w

theorem quiet_triple {α : Type} {p : ControlM α} (hp : p.Calls Call.Quiet) (hG : AllowsQuiet G)
    (R : Db → Prop) :
    Triple handler G (fun w => R w.db) p (fun _ w => R w.db) (fun _ w => R w.db) :=
  hp.triple (fun c hc w _ => hG w c hc) fun _ hc w hw => by rwa [hc.db_eq w]

theorem run_store_snd (c : StoreCall) (w : World) :
    ((store c).run handler w).2 = (handler (.store c) w).2 := by
  simp only [store, run_call]
  cases (handler (.store c) w).1 <;> rfl

/-- The state after a store call that answered `result`. -/
theorem triple_store {c : StoreCall} {Q : c.Result → World → Prop}
    (hguard : ∀ w, P w → G w (.store c))
    (hok : ∀ w, P w → ∀ result db, c.exec w.db = (.ok result, db) → Q result { w with db })
    (herror : ∀ w, P w → ∀ error db, c.exec w.db = (.error error, db) →
      E (.store error.display) { w with db }) :
    Triple handler G P (store c) Q E := by
  intro w hw
  refine ⟨⟨hguard w hw, ?_⟩, ?_⟩
  · cases (handler (.store c) w).1 <;> trivial
  · simp only [store, run_call, handler]
    cases hc : c.exec w.db with
    | mk answer db =>
      cases answer with
      | ok result => exact hok w hw result db hc
      | error error => exact herror w hw error db hc

theorem open_session_calls {P : Call → Prop} {nodeId : Nat} {ephemeral : Bool}
    (hnow : P (.env .now)) (hopen : ∀ now, P (.memory (.sessionOpen nodeId ephemeral now)))
    (hpublish : ∀ event, P (.memory (.publish event))) :
    (ControlPlane.openSession nodeId ephemeral).Calls P := by
  refine Calls.bind (calls_perform.mpr hnow) fun now =>
    Calls.bind (calls_perform.mpr (hopen now)) fun opened =>
      Calls.bind (Calls.forM fun event => ?_) fun _ => calls_pure _
  cases event with
  | online id => exact calls_perform.mpr (hpublish _)
  | offline id => exact calls_pure _
  | ephemeralExpired id => exact calls_pure _

theorem publish_quiet (event : ChangeEvent) : (publishChange event).Calls Call.Quiet :=
  calls_perform.mpr trivial

theorem now_quiet (cp : ControlPlane) : cp.nowRfc3339.Calls Call.Quiet :=
  Calls.bind (calls_perform.mpr trivial) fun _ => calls_pure _

theorem node_owner_login_calls {P : Call → Prop} (hlookup : ∀ id, P (.store (.getUser id)))
    (node : Node) : (ControlPlane.nodeOwnerLogin node).Calls P := by
  unfold nodeOwnerLogin
  cases node.userId with
  | none => exact calls_pure _
  | some userId => exact Calls.bind (calls_store (hlookup _)) fun _ => calls_pure _

theorem node_owner_login_quiet (node : Node) :
    (ControlPlane.nodeOwnerLogin node).Calls Call.Quiet :=
  node_owner_login_calls (fun _ => trivial) node

end Rules

theorem obeys_store {Φ : Type} {π : Protocol signature Φ} {φ : Φ} {E : ControlError → Φ → Prop}
    {c : StoreCall} {Q : c.Result → Φ → Prop} (hallowed : π.allowed φ (.store c))
    (hok : ∀ result, π.expects φ (.store c) (.ok result) →
      Q result (π.next φ (.store c) (.ok result)))
    (herror : ∀ error, π.expects φ (.store c) (.error error) →
      E (.store error.display) (π.next φ (.store c) (.error error))) :
    (store c).Obeys π φ Q E := by
  refine ⟨hallowed, fun answer hanswer => ?_⟩
  cases answer with
  | ok result => exact hok result hanswer
  | error error => exact herror error hanswer

/-! ## The row that a map request writes -/

namespace ControlPlane

variable (cp : ControlPlane)

/-- A node with the tags its machine asks for: only the stored owner may name new ones, and only a
node with an owner can give its tags up. -/
def retag (owner : Option String) (node : Node) (requested : List String) : Option Node :=
  if sortDedup requested = sortDedup (node.tags.getD []) then some node
  else if sortDedup requested = [] then
    if node.userId.isSome then some { node with tags := none } else none
  else if unauthorizedTags cp.config.policy owner (sortDedup requested) = [] then
    some { node with tags := some (sortDedup requested), userId := none }
  else none

def updatesHost (request : MapRequest) : Bool :=
  !(request.stream && streamingReadOnly request.version) && request.hostinfo.isSome

def retagError (owner : Option String) (requested : List String) : ControlError :=
  if sortDedup requested = [] then
    .policy "cannot return a tagged node to user ownership without a user"
  else .unauthorizedTags (unauthorizedTags cp.config.policy owner (sortDedup requested))

def mapTags (w : World) (observed : Node) (request : MapRequest) : Option Node :=
  if updatesHost request then
    cp.retag (w.ownerLogin observed) observed (requestedTags request.hostinfo)
  else some observed

def nowAt (w : World) : String := cp.ext.formatRfc3339 (w.env.clock w.env.position)

/-- The row that a map request writes over `before`, if its tags are allowed. -/
def mapRow (w : World) (before : Node) (request : MapRequest) : Option Node :=
  cp.mapTags w (observeRequest before request (cp.nowAt w)) request

end ControlPlane

section MapRow

variable {cp : ControlPlane} {w : World}

def ControlPlane.retagResult (cp : ControlPlane) (owner : Option String) (node : Node)
    (requested : List String) : Except ControlError (Bool × Node) :=
  match cp.retag owner node requested with
  | some updated => .ok (decide (sortDedup requested ≠ sortDedup (node.tags.getD [])), updated)
  | none => .error (cp.retagError owner requested)

theorem owner_login_none {node : Node} (h : node.userId = none) : w.ownerLogin node = none := by
  simp [World.ownerLogin, h]

theorem apply_request_tags_done (cp : ControlPlane) {owner : Option String} {node : Node}
    (howner : node.userId = none → owner = none) (requested : List String) :
    cp.applyRequestTags node owner requested = .done (cp.retagResult owner node requested) := by
  unfold applyRequestTags retagResult retag
    retagError
  dsimp only
  by_cases hsame : sortDedup requested = sortDedup (node.tags.getD [])
  · simp only [hsame, if_true, ne_eq, not_true_eq_false, decide_false]
    rfl
  simp only [hsame, if_false]
  by_cases hnone : sortDedup requested = []
  · simp only [hnone, if_true, untaggedOwner]
    cases huser : node.userId with
    | none =>
      rw [howner huser]
      rfl
    | some userId =>
      rw [hnone] at hsame
      simp only [Option.isSome_some, if_true, ne_eq, hsame, not_false_eq_true, decide_true]
      rfl
  simp only [hnone, if_false]
  by_cases hallowed : unauthorizedTags cp.config.policy owner (sortDedup requested) = []
  · simp only [hallowed, ne_eq, not_true_eq_false, if_false, hsame, not_false_eq_true, decide_true,
      if_true]
    rfl
  · simp only [hallowed, ne_eq, not_false_eq_true, if_true, if_false]
    rfl

structure SameRow (a b : Node) : Prop where
  id : a.id = b.id
  stableId : a.stableId = b.stableId
  nodeKey : a.nodeKey = b.nodeKey
  machineKey : a.machineKey = b.machineKey

theorem SameRow.trans {a b c : Node} (hab : SameRow a b) (hbc : SameRow b c) : SameRow a c :=
  ⟨hab.id.trans hbc.id, hab.stableId.trans hbc.stableId, hab.nodeKey.trans hbc.nodeKey,
    hab.machineKey.trans hbc.machineKey⟩

theorem retag_same_row {owner : Option String} {node updated : Node} {requested : List String}
    (h : cp.retag owner node requested = some updated) : SameRow updated node := by
  unfold retag at h
  split at h
  · cases h
    exact ⟨rfl, rfl, rfl, rfl⟩
  split at h
  · split at h <;> cases h
    exact ⟨rfl, rfl, rfl, rfl⟩
  · split at h <;> cases h
    exact ⟨rfl, rfl, rfl, rfl⟩

theorem apply_map_tags_run (cp : ControlPlane) (w : World) (observed : Node)
    (request : MapRequest) :
    exec (cp.applyMapTags observed request) w =
      match cp.mapTags w observed request with
      | some node => (.ok node, w)
      | none =>
        (.error (cp.retagError (w.ownerLogin observed) (requestedTags request.hostinfo)), w) := by
  unfold applyMapTags mapTags updatesHost
  split
  case isFalse => rfl
  case isTrue =>
    rw [exec, run_bind_ok handler (reads_node_owner_login observed w),
      apply_request_tags_done cp owner_login_none, retagResult]
    cases cp.retag (w.ownerLogin observed) observed (requestedTags request.hostinfo) <;> rfl

theorem apply_map_tags_safe {G : World → Call → Prop} (hG : AllowsQuiet G) (cp : ControlPlane)
    (w : World) (observed : Node) (request : MapRequest) :
    (cp.applyMapTags observed request).Safe handler G w := by
  unfold applyMapTags
  split
  case isFalse => trivial
  case isTrue =>
    refine safe_bind (quiet_safe (node_owner_login_quiet observed) hG w) fun owner w' hrun => ?_
    rw [reads_node_owner_login observed w] at hrun
    cases hrun
    rw [apply_request_tags_done cp owner_login_none]
    exact safe_bind trivial fun _ _ _ => trivial

def World.tick (w : World) : World :=
  { w with env := { w.env with position := w.env.position + 1 } }

theorem now_run (cp : ControlPlane) (w : World) :
    cp.nowRfc3339.run handler w = (.ok (cp.nowAt w), w.tick) := rfl

def MapRowOf (cp : ControlPlane) (machineKey : MachineKey) (request : MapRequest) (w : World)
    (node : Node) : Prop :=
  ∃ before, w.db.getNodeByNodeKey request.nodeKey = some before ∧ before.machineKey = machineKey ∧
    cp.mapRow w before request = some node

theorem reads_get_node_by_node_key (nodeKey : NodeKey) :
    Reads handler (store (.getNodeByNodeKey nodeKey)) fun w => w.db.getNodeByNodeKey nodeKey :=
  reads_store (c := .getNodeByNodeKey nodeKey) (f := fun db => db.getNodeByNodeKey nodeKey)
    fun _ => rfl

theorem observe_same_row (before : Node) (request : MapRequest) (now : String) :
    SameRow (observeRequest before request now) before := by
  unfold observeRequest
  dsimp only
  split
  · exact ⟨rfl, rfl, rfl, rfl⟩
  · cases request.hostinfo <;> exact ⟨rfl, rfl, rfl, rfl⟩

theorem map_row_same_row {before node : Node} {request : MapRequest}
    (h : cp.mapRow w before request = some node) : SameRow node before := by
  unfold mapRow mapTags at h
  split at h
  · exact (retag_same_row h).trans (observe_same_row before request _)
  · cases h
    exact observe_same_row before request _

/-- The row was written over the database of `w₀`, and the sessions are as they were. -/
def Wrote (w₀ : World) (node : Node) (w : World) : Prop :=
  (∃ stored, w₀.db.upsertNode node = (.ok stored, w.db)) ∧ w.sessions = w₀.sessions

def MapFailed (cp : ControlPlane) (machineKey : MachineKey) (request : MapRequest) (w₀ w : World) :
    Prop :=
  w.db = w₀.db ∨ ∃ node error, MapRowOf cp machineKey request w₀ node ∧
    w₀.db.upsertNode node = (.error error, w.db)

theorem record_map_request_spec {G : World → Call → Prop} (hG : AllowsQuiet G) {cp : ControlPlane}
    {machineKey : MachineKey} {request : MapRequest} {w₀ : World}
    (hwrite : ∀ node, MapRowOf cp machineKey request w₀ node → ∀ w, w.db = w₀.db →
      G w (.store (.upsertNode node))) :
    Triple handler G (· = w₀) (cp.recordMapRequest machineKey request)
      (fun node w => MapRowOf cp machineKey request w₀ node ∧ Wrote w₀ node w)
      (fun _ => MapFailed cp machineKey request w₀) := by
  have hunchanged : ∀ w, w = w₀ → MapFailed cp machineKey request w₀ w := fun w h => .inl (h ▸ rfl)
  unfold recordMapRequest
  dsimp only
  split
  · exact triple_throw_bind hunchanged
  split
  · exact triple_throw_bind hunchanged
  refine triple_bind_run (quiet_safe (calls_store (c := .getNodeByNodeKey _) trivial) hG w₀)
    (reads_get_node_by_node_key request.nodeKey w₀) ?_
  cases hfound : (w₀.db.getNodeByNodeKey request.nodeKey).filter (·.machineKey = machineKey) with
  | none => exact triple_throw hunchanged
  | some before =>
    rw [Option.filter_eq_some_iff, decide_eq_true_eq] at hfound
    have hsafe := apply_map_tags_safe hG cp w₀.tick
      (observeRequest before request (cp.nowAt w₀)) request
    have htags := apply_map_tags_run cp w₀.tick (observeRequest before request (cp.nowAt w₀))
      request
    refine triple_bind_run (quiet_safe (now_quiet cp) hG w₀) (now_run cp w₀) ?_
    cases hrow : cp.mapRow w₀ before request with
    | none =>
      rw [show cp.mapTags w₀.tick _ request = none from hrow] at htags
      exact triple_bind_run_error hsafe htags (.inl rfl)
    | some node =>
      rw [show cp.mapTags w₀.tick _ request = some node from hrow] at htags
      have hof : MapRowOf cp machineKey request w₀ node := ⟨before, hfound.1, hfound.2, hrow⟩
      have hpublish (event : ChangeEvent) : Triple handler G (Wrote w₀ node)
          (publishChange event) (fun _ => Wrote w₀ node)
          (fun _ => MapFailed cp machineKey request w₀) :=
        triple_perform (fun w _ => hG w _ trivial) fun _ h => h
      refine triple_bind_run hsafe htags (Triple.bind (M := fun _ => Wrote w₀ node)
        (triple_store ?_ ?_ ?_) fun _ => ?_)
      · rintro w rfl
        exact hwrite node hof _ rfl
      · rintro w rfl stored db hrun
        exact ⟨⟨stored, hrun⟩, rfl⟩
      · rintro w rfl error db hrun
        exact .inr ⟨node, error, hof, hrun⟩
      · split
        · exact (hpublish _).bind fun _ => (hpublish _).bind fun _ => triple_pure fun _ h =>
            ⟨hof, h⟩
        · exact (hpublish _).bind fun _ => triple_pure fun _ h => ⟨hof, h⟩

/-! ## The answer to a map request -/

def isLite (request : MapRequest) : Bool :=
  !request.stream && request.omitPeers && !request.readOnly

def MapOutcome.response : MapOutcome → Option MapResponse
  | .liteUpdate => none
  | .fullFrame frame => some frame.response
  | .stream start => some start.firstFrame.response

structure Opened (nodeId : Nat) (w₀ w : World) : Prop where
  db : w.db = w₀.db
  extraRecords : w.extraRecords = w₀.extraRecords
  derpMap : w.derpMap = w₀.derpMap
  online : ∀ id, id ≠ nodeId → w.sessions.isOnline id = w₀.sessions.isOnline id

def Call.Opens (nodeId : Nat) : Call → Prop
  | .env _ | .memory (.publish _) => True
  | .memory (.sessionOpen id _ _) => id = nodeId
  | _ => False

theorem is_online_open_session {registry : SessionRegistry} {nodeId id : Nat} (hid : id ≠ nodeId)
    (ephemeral : Bool) (now : Int) :
    (registry.openSession nodeId ephemeral now).2.isOnline id = registry.isOnline id := by
  simp only [SessionRegistry.openSession, SessionRegistry.isOnline, Std.ExtTreeMap.getElem?_insert,
    Std.compare_eq_iff_eq, hid.symm, if_false]

theorem Opened.call {nodeId : Nat} {w₀ w : World} (h : Opened nodeId w₀ w) {c : Call}
    (hc : c.Opens nodeId) : Opened nodeId w₀ (handler c w).2 := by
  cases c with
  | store c => exact hc.elim
  | env c => exact ⟨h.db, h.extraRecords, h.derpMap, h.online⟩
  | memory c =>
    cases c with
    | publish event => exact ⟨h.db, h.extraRecords, h.derpMap, h.online⟩
    | sessionOpen id ephemeral now =>
      cases hc
      exact ⟨h.db, h.extraRecords, h.derpMap, fun id hid =>
        (is_online_open_session hid ephemeral now).trans (h.online id hid)⟩
    | pendingInsert | pendingRemove | flowBegin | flowTake | sessionClose | sessionTick
      | isOnline | flush
    | extraRecords | setExtraRecords | derpMap | setDerpMap => exact hc.elim

structure StartsWith (cp : ControlPlane) (node : Node) (version : Nat) (w : World)
    (start : StreamStart) : Prop where
  map : start.firstFrame.response = cp.initialMapOf w node version
  nodeId : start.nodeId = node.id
  clientVersion : start.clientVersion = version
  peers : start.initialPeers =
    SessionPeers.fromPeers ((cp.initialMapOf w node version).peers.getD [])

structure MapAnswered (cp : ControlPlane) (node : Node) (request : MapRequest) (w₀ : World)
    (outcome : MapOutcome) (w : World) : Prop where
  opened : Opened node.id w₀ w
  response : outcome.response =
    if isLite request then none else some (cp.initialMapOf w₀ node request.version)
  start : ∀ start, outcome = .stream start → StartsWith cp node request.version w₀ start

theorem answer_map_request_spec (cp : ControlPlane) (node : Node) (request : MapRequest)
    (w₀ : World) :
    Yields (· = w₀) (cp.answerMapRequest node request)
      (MapAnswered cp node request w₀) := by
  have hsame : ∀ w, w = w₀ → Opened node.id w₀ w := fun w h => h ▸ ⟨rfl, rfl, rfl, fun _ _ => rfl⟩
  unfold answerMapRequest
  dsimp only
  by_cases hlite : (!request.stream && request.omitPeers && !request.readOnly) = true
  · rw [if_pos hlite]
    exact triple_pure fun w h => ⟨hsame w h, (if_pos hlite).symm, fun _ hstart => by cases hstart⟩
  rw [if_neg hlite]
  refine triple_bind_run (safe_any _ _) (reads_build_initial_map cp node request w₀) ?_
  unfold encodeFrame
  cases cp.ext.encodeError (cp.initialMapOf w₀ node request.version)
      (decide (request.compress = "zstd")) with
  | some error => exact triple_failed_bind
  | none =>
    refine triple_bind_run trivial rfl ?_
    split
    · refine Triple.bind (M := fun _ w => Opened node.id w₀ w)
        (((open_session_calls (P := Call.Opens node.id) trivial (fun _ => rfl)
          fun _ => trivial).triple (P := Opened node.id w₀)
          (fun _ _ _ _ => trivial) fun c hc w hw => hw.call hc).weaken hsame (fun _ _ h => h)
          fun _ _ _ => trivial) fun sessionId => triple_pure fun w h => ⟨h, (if_neg hlite).symm, ?_⟩
      rintro start hstart
      cases hstart
      exact ⟨rfl, rfl, rfl, rfl⟩
    · exact triple_pure fun w h =>
        ⟨hsame w h, (if_neg hlite).symm, fun _ hstart => by cases hstart⟩

theorem handle_map_ok {cp : ControlPlane} {machineKey : MachineKey} {request : MapRequest}
    {w w' : World} {outcome : MapOutcome}
    (h : exec (cp.handleMap machineKey request) w = (.ok outcome, w')) :
    ∃ node w₁, MapRowOf cp machineKey request w node ∧ Wrote w node w₁ ∧
      MapAnswered cp node request w₁ outcome w' := by
  have hspec : Yields (· = w) (cp.handleMap machineKey request)
      (fun outcome w' => ∃ node w₁, MapRowOf cp machineKey request w node ∧ Wrote w node w₁ ∧
        MapAnswered cp node request w₁ outcome w') := by
    unfold handleMap
    refine Triple.bind ((record_map_request_spec any_call_allows_quiet
      fun _ _ _ _ => trivial).weaken (fun _ h => h) (fun _ _ h => h) fun _ _ _ => trivial)
      fun node w₁ hrecorded => ?_
    exact ((answer_map_request_spec cp node request w₁).weaken (fun _ h => h)
      (fun _ _ h => ⟨node, w₁, hrecorded.1, hrecorded.2, h⟩) fun _ _ _ => trivial) w₁ rfl
  exact hspec.ok rfl h

end MapRow

end Crabscale.Control
