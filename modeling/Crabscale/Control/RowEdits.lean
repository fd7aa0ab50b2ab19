import Crabscale.Control.Acts
import Crabscale.Interaction.Serial

/-!
# What the operations make of one row

`handleMap`, `logout`, `approveRoute`, `disapproveRoute` and `register` each read one row and write
it back at most once. `Op.edit` is what is written as a function of what was read, and by `Op.obeys`
the programs write just that, under whatever interleaving.
-/

namespace Crabscale.Control

open Rust Proto Policy Interaction Interaction.Program ControlPlane

inductive RowWrite where
  | put (node : Node)
  | delete
  deriving DecidableEq

/-! ## The edits -/

section Edits

variable (cp : ControlPlane) (w₀ : World)

def mapEdit (machineKey : MachineKey) (request : MapRequest) (row : Node) : Option RowWrite :=
  if request.version < minSupportedCapver then none
  else if request.endpointTypes.length ≠ request.endpoints.length then none
  else if row.machineKey = machineKey then (cp.mapRow w₀ row request).map .put
  else none

def logoutEdit (row : Node) : Option RowWrite :=
  if row.tags.isSome then none
  else if row.ephemeral then some .delete
  else some (.put { row with machineAuthorized := false })

def approveEdit (route : String) (row : Node) : Option RowWrite :=
  (canonicalRoute route).bind fun canonical =>
    if canonical ∈ row.approvedRoutes then none
    else some (.put { row with approvedRoutes := sortDedup (row.approvedRoutes ++ [canonical]) })

def disapproveEdit (route : String) (row : Node) : Option RowWrite :=
  (canonicalRoute route).bind fun canonical =>
    if canonical ∉ row.approvedRoutes then none
    else some (.put { row with approvedRoutes := row.approvedRoutes.filter (· ≠ canonical) })

def reloginEdit (request : RegisterRequest) (row : Node) : Option RowWrite :=
  match cp.retagResult (w₀.ownerLogin row) row (requestedTags request.hostinfo) with
  | .ok (true, updated) => some (.put updated)
  | .ok (false, _) | .error _ => none

def reauthorizeEdit (request : RegisterRequest) (row : Node) : Option RowWrite :=
  match request.auth.bind fun auth => cp.validKey auth (cp.nowAt w₀) w₀.db with
  | none => none
  | some key => some (.put { row with
      machineAuthorized := true, tags := key.tags, ephemeral := key.ephemeral })

def registerEdit (machineKey : MachineKey) (request : RegisterRequest) (row : Node) :
    Option RowWrite :=
  if row.machineKey ≠ machineKey then none
  else if request.expiry ≠ "" && cp.ext.isPast request.expiry (cp.nowAt w₀) then logoutEdit row
  else if request.expiry ≠ "" && cp.ext.isFuture request.expiry (cp.nowAt w₀) then none
  else if row.machineAuthorized then reloginEdit cp w₀ request row
  else reauthorizeEdit cp w₀ request row

def Op.editRow (row : Node) : Op → Option RowWrite
  | handleMap machineKey request => mapEdit cp w₀ machineKey request row
  | logout machineKey _ => if row.machineKey = machineKey then logoutEdit row else none
  | approveRoute _ route => approveEdit route row
  | disapproveRoute _ route => disapproveEdit route row
  | register machineKey request => registerEdit cp w₀ machineKey request row
  | approvePending .. | rejectPending .. | closeSession .. | reapSessions | createPreAuthKey ..
  | revokePreAuthKey .. | handleRegisterPage .. | handleOidcCallback .. | handleSshAction ..
  | approveSsh .. | rejectSsh .. | sshAuthInfo .. => none

def Op.edit (op : Op) : Option Node → Option RowWrite
  | none => none
  | some row => op.editRow cp w₀ row

end Edits

def Op.isMap : Op → Bool
  | handleMap .. => true
  | _ => false

/-- The operations on the row of a node key. A registration that follows another one up is left out:
it writes a new node, and does not look at the row. -/
def Op.OnRow (nodeKey : NodeKey) : Op → Prop
  | handleMap _ request => request.nodeKey = nodeKey
  | logout _ key | approveRoute key _ | disapproveRoute key _ => key = nodeKey
  | register _ request => request.nodeKey = nodeKey ∧ request.followup = ""
  | approvePending .. | rejectPending .. | closeSession .. | reapSessions | createPreAuthKey ..
  | revokePreAuthKey .. | handleRegisterPage .. | handleOidcCallback .. | handleSshAction ..
  | approveSsh .. | rejectSsh .. | sshAuthInfo .. => False

/-! ## The protocol -/

/-- The answer to the first lookup of the row: it has the key asked for, and it is there unless only
map requests look for it. -/
def FindsRow (op : Op) (asked : NodeKey) (answer : Except StoreError (Option Node)) : Prop :=
  ∃ found, answer = .ok found ∧ (∀ row ∈ found, row.nodeKey = asked) ∧
    (op.isMap = false → found.isSome)

/-- The protocol of an operation on the row of a node key, while users, keys and clock are those of
`w₀`. -/
def rowProtocol (cp : ControlPlane) (w₀ : World) (nodeKey : NodeKey) (op : Op) :
    Protocol signature (Access (Option Node)) where
  allowed φ
    | .store (.getNodeByNodeKey asked) => φ = .start → asked = nodeKey
    | .store (.upsertNode node) =>
      ∃ row, φ = .saw (some row) ∧ op.editRow cp w₀ row = some (.put node)
    | .store (.deleteNode deleted) =>
      deleted = nodeKey ∧ ∃ row, φ = .saw (some row) ∧ op.editRow cp w₀ row = some .delete
    | .store (.getPreAuthKey _) => φ ≠ .wrote → op.isMap = false
    | .store (.markPreAuthKeyUsed _) => φ = .wrote ∧ op.isMap = false
    | .store (.createUser _) | .store (.updateUserDisplayName _ _) | .store (.createLogin _)
    | .store (.createPreAuthKey _) | .store (.revokePreAuthKey _) => False
    | _ => True
  expects φ
    | .env .now, now => now = w₀.env.clock w₀.env.position
    | .store (.getUser id), answer => answer = .ok (w₀.db.getUser id)
    | .store (.getLogin id), answer => answer = .ok (w₀.db.getLogin id)
    | .store (.getPreAuthKey keyPrefix), answer =>
      φ ≠ .wrote → answer = .ok (w₀.db.getPreAuthKey keyPrefix)
    | .store (.getNodeByNodeKey asked), answer => φ = .start → FindsRow op asked answer
    | _, _ => True
  next φ
    | .store (.getNodeByNodeKey _), .ok found => φ.read found
    | .store (.upsertNode _), _ | .store (.deleteNode _), _ => .wrote
    | _, _ => φ

section Obeys

variable {cp : ControlPlane} {w₀ : World} {nodeKey : NodeKey} {op : Op} {φ : Access (Option Node)}

def MayEnd (cp : ControlPlane) (w₀ : World) (op : Op) (φ : Access (Option Node)) : Prop :=
  Settled (op.edit cp w₀) φ ∨ ∀ seen, op.edit cp w₀ seen = none

abbrev KeepsRow {α : Type} (cp : ControlPlane) (w₀ : World) (nodeKey : NodeKey) (op : Op)
    (φ : Access (Option Node)) (p : ControlM α) : Prop :=
  p.Obeys (rowProtocol cp w₀ nodeKey op) φ (fun _ => MayEnd cp w₀ op) (fun _ => MayEnd cp w₀ op)

def Call.Aside : Call → Prop
  | .store (.savePending _) | .memory _ | .env _ => True
  | .store _ => False

theorem Call.Aside.keeps {c : Call} (hc : c.Aside) : (rowProtocol cp w₀ nodeKey op).Keeps φ c := by
  cases c with
  | memory c => exact ⟨trivial, fun _ => rfl⟩
  | env c => exact ⟨trivial, fun _ => rfl⟩
  | store c =>
    cases c with
    | savePending entry => exact ⟨trivial, fun _ => rfl⟩
    | _ => exact hc.elim

theorem Call.OffTables.keeps_wrote {c : Call} (hc : c.OffTables) :
    (rowProtocol cp w₀ nodeKey op).Keeps .wrote c := by
  cases c with
  | memory c => exact ⟨trivial, fun _ => rfl⟩
  | env c => exact ⟨trivial, fun _ => rfl⟩
  | store c =>
    cases c with
    | getNodeByNodeKey asked => exact ⟨nofun, fun answer => by cases answer <;> rfl⟩
    | getPreAuthKey keyPrefix => exact ⟨fun h => (h rfl).elim, fun _ => rfl⟩
    | getUser | getUserByLoginName | getLogin | getLoginByProviderSubject | getNodeById
      | listNodes
    | getPending | getSshAuth | listSshAuths => exact ⟨trivial, fun _ => rfl⟩
    | _ => exact hc.elim

def Call.Steady (op : Op) (φ : Access (Option Node)) : Call → Prop
  | .store (.getUser _) | .store (.getLogin _) => True
  | .store (.getPreAuthKey _) => op.isMap = false ∧ φ ≠ .wrote
  | _ => False

theorem Call.Steady.reads {c : Call} (hc : c.Steady op φ) :
    (rowProtocol cp w₀ nodeKey op).Keeps φ c ∧
      (∀ answer, (rowProtocol cp w₀ nodeKey op).expects φ c answer → answer = (handler c w₀).1) ∧
      (handler c w₀).2 = w₀ := by
  cases c with
  | memory c => exact hc.elim
  | env c => exact hc.elim
  | store c =>
    cases c with
    | getUser id => exact ⟨⟨trivial, fun _ => rfl⟩, fun _ h => h, rfl⟩
    | getLogin id => exact ⟨⟨trivial, fun _ => rfl⟩, fun _ h => h, rfl⟩
    | getPreAuthKey keyPrefix =>
      exact ⟨⟨fun _ => hc.1, fun _ => rfl⟩, fun _ h => h hc.2, rfl⟩
    | _ => exact hc.elim

/-! ### Rules -/

variable {α β : Type} {Q : β → Access (Option Node) → Prop}
  {E : ControlError → Access (Option Node) → Prop}

theorem steady_bind {p : ControlM α} {k : α → ControlM β} {f : World → α} {value : α}
    (hp : p.Calls (Call.Steady op φ)) (hreads : Reads handler p f) (hvalue : f w₀ = value)
    (hk : (k value).Obeys (rowProtocol cp w₀ nodeKey op) φ Q E) :
    (p >>= k).Obeys (rowProtocol cp w₀ nodeKey op) φ Q E := by
  have hrun : p.run handler w₀ = (.ok value, w₀) := by rw [hreads w₀, hvalue]
  refine ((hp.mono fun _ hc => hc.reads).obeys_run.weaken (fun _ _ h => h) ?_).bind ?_
  · rintro error _ ⟨-, herror⟩
    cases hrun.symm.trans herror
  · rintro other _ ⟨rfl, hother⟩
    cases hrun.symm.trans hother
    exact hk

theorem now_bind {k : String → ControlM β}
    (hk : (k (cp.nowAt w₀)).Obeys (rowProtocol cp w₀ nodeKey op) φ Q E) :
    (cp.nowRfc3339 >>= k).Obeys (rowProtocol cp w₀ nodeKey op) φ Q E := by
  refine ⟨trivial, fun now hnow => ?_⟩
  cases hnow
  exact hk

theorem find_row_bind {k : Option Node → ControlM β}
    (hk : ∀ found, (∀ row ∈ found, row.nodeKey = nodeKey) → (op.isMap = false → found.isSome) →
      (k found).Obeys (rowProtocol cp w₀ nodeKey op) (.saw found) Q E) :
    (store (.getNodeByNodeKey nodeKey) >>= k).Obeys (rowProtocol cp w₀ nodeKey op) .start Q E := by
  refine Obeys.bind (M := fun found φ => φ = .saw found ∧ (∀ row ∈ found, row.nodeKey = nodeKey) ∧
    (op.isMap = false → found.isSome)) (obeys_store (fun _ => rfl) (fun found hfound => ?_)
      fun error hfound => ?_) ?_
  · obtain ⟨_, hsame, hrest⟩ := hfound rfl
    cases hsame
    exact ⟨rfl, hrest⟩
  · obtain ⟨_, hsame, _⟩ := hfound rfl
    cases hsame
  · rintro found _ ⟨rfl, hkey, hsome⟩
    exact hk found hkey hsome

theorem may_end_wrote : MayEnd cp w₀ op .wrote := .inl trivial

theorem may_end_of_none (h : ∀ row, op.editRow cp w₀ row = none) : MayEnd cp w₀ op φ := by
  refine .inr fun seen => ?_
  cases seen with
  | none => rfl
  | some row => exact h row

theorem may_end_of_filter {found : Option Node} {machineKey : MachineKey}
    (h : ∀ row : Node, row.machineKey ≠ machineKey → op.editRow cp w₀ row = none)
    (hnone : found.filter (·.machineKey = machineKey) = none) : MayEnd cp w₀ op (.saw found) := by
  refine .inl ?_
  cases found with
  | none => rfl
  | some row => exact h row (by simpa using hnone)

variable {row : Node}

theorem put_bind {node : Node} {k : Node → ControlM β}
    (hedit : op.editRow cp w₀ row = some (.put node))
    (hk : ∀ stored, (k stored).Obeys (rowProtocol cp w₀ nodeKey op) .wrote Q
      (fun _ => MayEnd cp w₀ op)) :
    (store (.upsertNode node) >>= k).Obeys (rowProtocol cp w₀ nodeKey op) (.saw (some row)) Q
      (fun _ => MayEnd cp w₀ op) := by
  refine Obeys.bind (M := fun _ φ => φ = .wrote)
    (obeys_store ⟨row, rfl, hedit⟩ (fun _ _ => rfl) fun _ _ => may_end_wrote) ?_
  rintro stored _ rfl
  exact hk stored

theorem off_tables_wrote {p : ControlM α} (hp : p.Calls Call.OffTables) :
    KeepsRow cp w₀ nodeKey op .wrote p := by
  refine (hp.mono fun _ hc => hc.keeps_wrote).obeys.weaken ?_ ?_
  · rintro _ _ rfl
    exact may_end_wrote
  · rintro _ _ rfl
    exact may_end_wrote

/-! ### Map requests -/

theorem apply_map_tags_obeys (observed : Node) (request : MapRequest) :
    (cp.applyMapTags observed request).Obeys (rowProtocol cp w₀ nodeKey op) φ
      (fun node φ' => φ' = φ ∧ cp.mapTags w₀ observed request = some node)
      (fun _ φ' => φ' = φ ∧ cp.mapTags w₀ observed request = none) := by
  unfold applyMapTags mapTags updatesHost
  split
  case isFalse => exact ⟨rfl, rfl⟩
  case isTrue =>
    refine steady_bind (node_owner_login_calls (fun _ => trivial) observed)
      (reads_node_owner_login observed) rfl ?_
    rw [apply_request_tags_done cp owner_login_none, retagResult]
    cases hretag : cp.retag (w₀.ownerLogin observed) observed
      (requestedTags request.hostinfo) with
    | some node => exact ⟨rfl, rfl⟩
    | none => exact ⟨rfl, rfl⟩

variable {machineKey : MachineKey}

theorem record_map_request_obeys {request : MapRequest} (hkey : request.nodeKey = nodeKey) :
    (cp.recordMapRequest machineKey request).Obeys
      (rowProtocol cp w₀ nodeKey (.handleMap machineKey request)) .start
      (fun _ φ => φ = .wrote) (fun _ => MayEnd cp w₀ (.handleMap machineKey request)) := by
  unfold recordMapRequest
  dsimp only
  split
  case isTrue hversion => exact may_end_of_none fun _ => if_pos hversion
  case isFalse hversion =>
  split
  case isTrue htypes => exact may_end_of_none fun _ => (if_neg hversion).trans (if_pos htypes)
  case isFalse htypes =>
  rw [hkey]
  refine find_row_bind fun found _ _ => ?_
  have hedit (row : Node) : Op.editRow cp w₀ row (.handleMap machineKey request) =
      if row.machineKey = machineKey then (cp.mapRow w₀ row request).map .put else none :=
    (if_neg hversion).trans (if_neg htypes)
  cases hfilter : found.filter (·.machineKey = machineKey) with
  | none => exact may_end_of_filter (fun row h => (hedit row).trans (if_neg h)) hfilter
  | some before =>
    rw [Option.filter_eq_some_iff, decide_eq_true_eq] at hfilter
    obtain ⟨rfl, hmachine⟩ := hfilter
    have hbefore := (hedit before).trans (if_pos hmachine)
    refine now_bind ((apply_map_tags_obeys _ request).weaken (fun _ _ h => h) ?_ |>.bind ?_)
    · rintro _ _ ⟨rfl, hnone⟩
      rw [show cp.mapRow w₀ before request = none from hnone] at hbefore
      exact .inl hbefore
    · rintro node _ ⟨rfl, hsome⟩
      rw [show cp.mapRow w₀ before request = some node from hsome] at hbefore
      have htail : (do
          if node ≠ before then publishChange (.nodeChanged node.id)
          publishChange (.peerSeen node.id)
          return node : ControlM Node).Calls Call.OffTables := by
        dsimp only
        split
        · exact Calls.bind (calls_perform.mpr trivial) fun _ =>
            Calls.bind (calls_perform.mpr trivial) fun _ => calls_pure _
        · exact Calls.bind (calls_perform.mpr trivial) fun _ => calls_pure _
      refine put_bind hbefore fun _ => ?_
      refine (htail.mono fun _ hc => hc.keeps_wrote).obeys.weaken (fun _ _ h => h) ?_
      rintro _ _ rfl
      exact may_end_wrote

theorem handle_map_obeys {request : MapRequest} (hkey : request.nodeKey = nodeKey) :
    KeepsRow cp w₀ nodeKey (.handleMap machineKey request) .start
      (cp.handleMap machineKey request) := by
  refine (record_map_request_obeys hkey).bind ?_
  rintro node _ rfl
  exact off_tables_wrote (answer_map_request_off_tables node request)

/-! ### Logout and routes -/

theorem logout_node_edits (hkey : row.nodeKey = nodeKey) (nodeKeyExpired : Bool)
    (hedit : op.editRow cp w₀ row = logoutEdit row) :
    KeepsRow cp w₀ nodeKey op (.saw (some row)) (cp.logoutNode row nodeKeyExpired) := by
  have htail (event : ChangeEvent) (response : RegisterResponse) :
      (publishChange event >>= fun _ =>
        pure response : ControlM RegisterResponse).Calls Call.OffTables :=
    Calls.bind (calls_perform.mpr trivial) fun _ => calls_pure _
  unfold logoutNode
  unfold logoutEdit at hedit
  split
  case isTrue htags =>
    rw [if_pos htags] at hedit
    exact .inl hedit
  case isFalse htags =>
  rw [if_neg htags] at hedit
  split
  case isTrue hephemeral =>
    rw [if_pos hephemeral] at hedit
    refine Obeys.bind (M := fun _ φ => φ = .wrote)
      (obeys_store ⟨hkey, row, rfl, hedit⟩ (fun _ _ => rfl) fun _ _ => may_end_wrote) ?_
    rintro _ _ rfl
    exact off_tables_wrote (htail _ _)
  case isFalse hephemeral =>
    rw [if_neg hephemeral] at hedit
    exact put_bind hedit fun _ => off_tables_wrote (htail _ _)

theorem logout_obeys (machineKey : MachineKey) :
    KeepsRow cp w₀ nodeKey (.logout machineKey nodeKey) .start (cp.logout machineKey nodeKey) := by
  refine find_row_bind fun found hkey _ => ?_
  cases hfilter : found.filter (·.machineKey = machineKey) with
  | none => exact may_end_of_filter (fun _ h => if_neg h) hfilter
  | some row =>
    rw [Option.filter_eq_some_iff, decide_eq_true_eq] at hfilter
    obtain ⟨rfl, hmachine⟩ := hfilter
    exact logout_node_edits (hkey row rfl) false (if_pos hmachine)

theorem admit_node_edits {node : Node} (hedit : op.editRow cp w₀ row = some (.put node)) :
    KeepsRow cp w₀ nodeKey op (.saw (some row)) (ControlPlane.admitNode node) :=
  put_bind hedit fun _ => off_tables_wrote (publish_quiet _)

theorem route_obeys {route : String} {P : Node → String → Prop}
    [∀ row canonical, Decidable (P row canonical)] {f : Node → String → Node}
    (hedit : ∀ row, op.editRow cp w₀ row = (canonicalRoute route).bind fun canonical =>
      if P row canonical then none else some (.put (f row canonical))) :
    KeepsRow cp w₀ nodeKey op .start (ControlPlane.routeTarget nodeKey route >>= fun target =>
      if P target.1 target.2 then pure () else admitNode (f target.1 target.2)) := by
  unfold routeTarget
  cases hroute : canonicalRoute route with
  | none => exact may_end_of_none fun row => by rw [hedit, hroute, Option.bind_none]
  | some canonical =>
    simp only [hroute, Option.bind_some] at hedit
    rw [bind_assoc]
    refine find_row_bind fun found _ _ => ?_
    cases found with
    | none => exact .inl rfl
    | some row =>
      show KeepsRow cp w₀ nodeKey op _ (if P row canonical then _ else _)
      split
      case isTrue hskips => exact .inl ((hedit row).trans (if_pos hskips))
      case isFalse hskips => exact admit_node_edits ((hedit row).trans (if_neg hskips))

/-! ### Registration -/

theorem ensure_user_edits (hboot : Bootstrapped cp w₀.db) :
    cp.ensureUser.Obeys (rowProtocol cp w₀ nodeKey op) φ (fun _ φ' => φ' = φ) E := by
  obtain ⟨user, huser⟩ := Option.isSome_iff_exists.mp (Db.get_user_is_some.mpr hboot.user)
  exact steady_bind (calls_store trivial) (reads_get_user _) huser rfl

theorem ensure_login_edits (hboot : Bootstrapped cp w₀.db) :
    cp.ensureLogin.Obeys (rowProtocol cp w₀ nodeKey op) φ (fun _ φ' => φ' = φ) E := by
  obtain ⟨login, hlogin⟩ := Option.isSome_iff_exists.mp (Db.get_login_is_some.mpr hboot.login)
  exact steady_bind (calls_store trivial) (reads_get_login _) hlogin rfl

theorem ensure_bootstrap_key_edits (hboot : Bootstrapped cp w₀.db) (hop : op.isMap = false) :
    cp.ensureBootstrapKey.Obeys (rowProtocol cp w₀ nodeKey op) .start
      (fun _ φ => φ = .start) E := by
  unfold ensureBootstrapKey
  cases hparse : parseAuthKey cp.config.authKey with
  | none => exact (rfl : Access.start = _)
  | some parsed =>
    obtain ⟨key, hkey⟩ := Option.isSome_iff_exists.mp
      (Db.get_pre_auth_key_is_some.mpr (hboot.key parsed.1 parsed.2 hparse))
    exact steady_bind (calls_store ⟨hop, nofun⟩) (reads_get_pre_auth_key _) hkey rfl

theorem start_interactive_edits (machineKey : MachineKey) (request : RegisterRequest)
    (now : String) (hedit : op.editRow cp w₀ row = none) :
    KeepsRow cp w₀ nodeKey op (.saw (some row)) (cp.startInteractive machineKey request now) := by
  have haside : (cp.startInteractive machineKey request now).Calls Call.Aside :=
    Calls.bind (calls_perform.mpr trivial) fun _ =>
      Calls.bind (Calls.bind (calls_perform.mpr trivial) fun _ => calls_pure _) fun _ =>
        Calls.bind (Calls.bind (calls_perform.mpr trivial) fun _ => calls_store trivial) fun _ =>
          calls_pure _
  refine (haside.mono fun _ hc => hc.keeps).obeys.weaken ?_ ?_
  · rintro _ _ rfl
    exact .inl hedit
  · rintro _ _ rfl
    exact .inl hedit

theorem save_node_edits {node : Node} (hedit : op.editRow cp w₀ row = some (.put node)) :
    (ControlPlane.saveNode node).Obeys (rowProtocol cp w₀ nodeKey op) (.saw (some row))
      (fun _ φ => φ = .wrote) (fun _ => MayEnd cp w₀ op) :=
  put_bind hedit fun _ => ⟨trivial, fun _ _ => rfl⟩

theorem relogin_edits {request : RegisterRequest}
    (hedit : op.editRow cp w₀ row = reloginEdit cp w₀ request row) :
    KeepsRow cp w₀ nodeKey op (.saw (some row)) (cp.relogin row request) := by
  unfold relogin
  unfold reloginEdit at hedit
  refine steady_bind (node_owner_login_calls (fun _ => trivial) row)
    (reads_node_owner_login row) rfl ?_
  rw [apply_request_tags_done cp owner_login_none]
  cases hresult : cp.retagResult (w₀.ownerLogin row) row (requestedTags request.hostinfo) with
  | error error =>
    rw [hresult] at hedit
    exact .inl hedit
  | ok result =>
    obtain ⟨changed, updated⟩ := result
    rw [hresult] at hedit
    cases changed with
    | false => exact .inl hedit
    | true =>
      refine (save_node_edits hedit).bind ?_
      rintro _ _ rfl
      exact may_end_wrote

theorem reauthorize_edits {key : PreAuthKey} (hop : op.isMap = false)
    (hedit : op.editRow cp w₀ row = some (.put { row with
      machineAuthorized := true, tags := key.tags, ephemeral := key.ephemeral })) :
    KeepsRow cp w₀ nodeKey op (.saw (some row)) (cp.reauthorize row key) := by
  refine (save_node_edits hedit).bind ?_
  rintro _ _ rfl
  refine Obeys.bind (M := fun _ φ => φ = .wrote) ?_ ?_
  · unfold consumeKey
    split
    · exact obeys_store ⟨rfl, hop⟩ (fun _ _ => rfl) fun _ _ => may_end_wrote
    · exact (rfl : Access.wrote = _)
  · rintro _ _ rfl
    exact may_end_wrote

theorem register_existing_edits {request : RegisterRequest}
    (hop : op.isMap = false) (hkey : row.nodeKey = nodeKey)
    (hedit : op.editRow cp w₀ row = registerEdit cp w₀ machineKey request row) :
    KeepsRow cp w₀ nodeKey op (.saw (some row))
      (cp.registerExisting machineKey request (cp.nowAt w₀) row) := by
  unfold registerExisting
  unfold registerEdit at hedit
  split
  case isTrue hmachine => exact .inl (hedit.trans (if_pos hmachine))
  case isFalse hmachine =>
  rw [if_neg hmachine] at hedit
  split
  case isTrue hpast => exact logout_node_edits hkey true (hedit.trans (if_pos hpast))
  case isFalse hpast =>
  rw [if_neg hpast] at hedit
  split
  case isTrue hfuture => exact .inl (hedit.trans (if_pos hfuture))
  case isFalse hfuture =>
  rw [if_neg hfuture] at hedit
  split
  case isTrue hauthorized => exact relogin_edits (hedit.trans (if_pos hauthorized))
  case isFalse hauthorized =>
  rw [if_neg hauthorized, reauthorizeEdit] at hedit
  cases hauth : request.auth with
  | none =>
    rw [hauth] at hedit
    exact start_interactive_edits machineKey request _ hedit
  | some auth =>
    rw [hauth, Option.bind_some] at hedit
    cases hvalid : cp.validKey auth (cp.nowAt w₀) w₀.db with
    | none =>
      rw [hvalid] at hedit
      exact steady_bind (validated_auth_key_calls (fun _ => ⟨hop, nofun⟩) auth _)
        (reads_validated_auth_key auth _) hvalid
        (start_interactive_edits machineKey request _ hedit)
    | some key =>
      rw [hvalid] at hedit
      exact steady_bind (validated_auth_key_calls (fun _ => ⟨hop, nofun⟩) auth _)
        (reads_validated_auth_key auth _) hvalid (reauthorize_edits hop hedit)

theorem register_edits {request : RegisterRequest}
    (hboot : Bootstrapped cp w₀.db) (hkey : request.nodeKey = nodeKey)
    (hfollowup : request.followup = "") :
    KeepsRow cp w₀ nodeKey (.register machineKey request) .start
      (cp.register machineKey request) := by
  have hbody : KeepsRow cp w₀ nodeKey (.register machineKey request) .start
      (cp.registerBody machineKey request) := by
    unfold registerBody
    refine Obeys.bind (M := fun _ φ => φ = .start) (Obeys.bind (ensure_user_edits hboot) ?_) ?_
    · rintro _ _ rfl
      exact ensure_login_edits hboot
    rintro _ _ rfl
    refine (ensure_bootstrap_key_edits hboot rfl).bind ?_
    rintro _ _ rfl
    refine now_bind ?_
    rw [if_neg (by rw [hfollowup]; exact fun h => h rfl), hkey]
    refine find_row_bind fun found hfound hsome => ?_
    cases found with
    | none => cases hsome rfl
    | some row => exact register_existing_edits rfl (hfound row rfl) rfl
  refine hbody.attempt.bind fun result φ hφ => ?_
  cases result <;> exact hφ

theorem Op.obeys {op : Op} (hboot : Bootstrapped cp w₀.db) (hop : op.OnRow nodeKey) :
    KeepsRow cp w₀ nodeKey op .start (op.program cp) := by
  cases op with
  | handleMap machineKey request => exact (handle_map_obeys hop).bind fun _ _ h => h
  | logout machineKey key =>
    cases hop
    exact (logout_obeys machineKey).bind fun _ _ h => h
  | approveRoute key route =>
    cases hop
    exact route_obeys (P := fun row canonical => canonical ∈ row.approvedRoutes)
      (f := fun row canonical =>
        { row with approvedRoutes := sortDedup (row.approvedRoutes ++ [canonical]) }) fun _ => rfl
  | disapproveRoute key route =>
    cases hop
    exact route_obeys (P := fun row canonical => canonical ∉ row.approvedRoutes)
      (f := fun row canonical =>
        { row with approvedRoutes := row.approvedRoutes.filter (· ≠ canonical) }) fun _ => rfl
  | register machineKey request =>
    exact (register_edits hboot hop.1 hop.2).bind fun _ _ h => h
  | _ => exact hop.elim

end Obeys

end Crabscale.Control
