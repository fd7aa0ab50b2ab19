import Crabscale.Control.Oidc
import Crabscale.Control.Rows
import Crabscale.Control.Rules
import Crabscale.Control.Ssh

/-!
# What the operations may do to the store, and why

`Acts` is the guard of every store call, in the state in which the call is made: why a node row is
written, a key created, a pending registration saved or dropped. Every operation keeps to it
(`Crabscale.Control.Acts`), and invariants of the store are proved from the guard, one call at a
time. This module has the guard and the parts of the operations that leave the database as it is.
-/

namespace Crabscale.Control

open Rust Proto Policy Interaction Interaction.Program ControlPlane

/-- An operation that a client, an administrator or a browser starts. -/
inductive Op where
  | register (machineKey : MachineKey) (request : RegisterRequest)
  | approvePending (authId userName : String)
  | rejectPending (authId : String)
  | logout (machineKey : MachineKey) (nodeKey : NodeKey)
  | handleMap (machineKey : MachineKey) (request : MapRequest)
  | closeSession (sessionId : Nat)
  | reapSessions
  | createPreAuthKey (keyPrefix : String) (reusable ephemeral : Bool) (expiration : Option String)
      (tags : Option (List String))
  | revokePreAuthKey (keyPrefix : String)
  | approveRoute (nodeKey : NodeKey) (route : String)
  | disapproveRoute (nodeKey : NodeKey) (route : String)
  | handleRegisterPage (authId : String)
  | handleOidcCallback (params : BTreeMap String String)
  | handleSshAction (machineKey : MachineKey) (binding : SshBinding) (authId : Option String)
  | approveSsh (authId : String)
  | rejectSsh (authId : String)
  | sshAuthInfo (authId : String)

def Op.program (cp : ControlPlane) : Op → ControlM Unit
  | register machineKey request => do let _ ← cp.register machineKey request
  | approvePending authId userName => cp.approvePending authId userName
  | rejectPending authId => cp.rejectPending authId
  | logout machineKey nodeKey => do let _ ← cp.logout machineKey nodeKey
  | handleMap machineKey request => do let _ ← cp.handleMap machineKey request
  | closeSession sessionId => ControlPlane.closeSession sessionId
  | reapSessions => do let _ ← ControlPlane.reapSessions
  | createPreAuthKey keyPrefix reusable ephemeral expiration tags => do
      let _ ← cp.createPreAuthKey keyPrefix reusable ephemeral expiration tags
  | revokePreAuthKey keyPrefix => ControlPlane.revokePreAuthKey keyPrefix
  | approveRoute nodeKey route => ControlPlane.approveRoute nodeKey route
  | disapproveRoute nodeKey route => ControlPlane.disapproveRoute nodeKey route
  | handleRegisterPage authId => do let _ ← cp.handleRegisterPage authId
  | handleOidcCallback params => do let _ ← cp.handleOidcCallback params
  | handleSshAction machineKey binding authId => do
      let _ ← cp.handleSshAction machineKey binding authId
  | approveSsh authId => cp.approveSsh authId
  | rejectSsh authId => cp.rejectSsh authId
  | sshAuthInfo authId => do let _ ← cp.sshAuthInfo authId

def Op.exec (cp : ControlPlane) (op : Op) (w : World) : World :=
  (Control.exec (op.program cp) w).2

/-! ## The configured rows -/

def ControlPlane.HasIds (cp : ControlPlane) : Prop := cp.config.userId ≠ 0 ∧ cp.config.loginId ≠ 0

def KeyConfigured (cp : ControlPlane) (db : Db) : Prop :=
  ∀ keyPrefix secret, parseAuthKey cp.config.authKey = some (keyPrefix, secret) →
    keyPrefix ∈ db.preAuthKeys.map PreAuthKey.keyPrefix

variable {cp : ControlPlane} {db : Db}

theorem KeyConfigured.keep {db' : Db} (h : KeyConfigured cp db)
    (hkeys : db.preAuthKeys.map PreAuthKey.keyPrefix ⊆ db'.preAuthKeys.map PreAuthKey.keyPrefix) :
    KeyConfigured cp db' :=
  fun keyPrefix secret hparse => hkeys (h keyPrefix secret hparse)

/-- The configured user, login and pre-auth key exist. -/
structure Bootstrapped (cp : ControlPlane) (db : Db) : Prop where
  user : cp.config.userId ∈ db.users.map User.id
  login : cp.config.loginId ∈ db.logins.map Login.id
  key : KeyConfigured cp db

theorem Bootstrapped.mono {db' : Db} (h : Bootstrapped cp db)
    (husers : db.users.map User.id ⊆ db'.users.map User.id)
    (hlogins : db.logins.map Login.id ⊆ db'.logins.map Login.id)
    (hkeys : db.preAuthKeys.map PreAuthKey.keyPrefix ⊆ db'.preAuthKeys.map PreAuthKey.keyPrefix) :
    Bootstrapped cp db' :=
  ⟨husers h.user, hlogins h.login, h.key.keep hkeys⟩

/-- What `register` made sure of before it writes a node: the configured key exists, and the user
and the login do if they have ids of their own. -/
structure Configured (cp : ControlPlane) (db : Db) : Prop where
  boot : cp.HasIds → Bootstrapped cp db
  key : KeyConfigured cp db

theorem Configured.keep {db' : Db} (h : Configured cp db)
    (husers : db.users.map User.id ⊆ db'.users.map User.id)
    (hlogins : db.logins.map Login.id ⊆ db'.logins.map Login.id)
    (hkeys : db.preAuthKeys.map PreAuthKey.keyPrefix ⊆ db'.preAuthKeys.map PreAuthKey.keyPrefix) :
    Configured cp db' :=
  ⟨fun hids => (h.boot hids).mono husers hlogins hkeys, h.key.keep hkeys⟩

/-- The configured user is the first user, the configured login the first login, and nothing is
pending before both and the configured key exist. -/
structure Grounded (cp : ControlPlane) (db : Db) : Prop where
  user : db.users = [] ∨ cp.config.userId ∈ db.users.map User.id
  login : db.logins = [] ∨ cp.config.loginId ∈ db.logins.map Login.id
  pending : db.pending = [] ∨ Bootstrapped cp db

theorem Grounded.boot (h : Grounded cp db) (hpending : db.pending ≠ []) : Bootstrapped cp db :=
  h.pending.resolve_left hpending

/-- The first part of `register`: the configured rows are made sure of. -/
def ControlPlane.bootstrap (cp : ControlPlane) : ControlM Unit := do
  cp.ensureDefaultUser
  cp.ensureBootstrapKey

/-- The second part of `register`: the decision at a time. -/
def ControlPlane.registerAt (cp : ControlPlane) (machineKey : MachineKey)
    (request : RegisterRequest)
    (now : String) : ControlM RegisterResponse := do
  if request.followup ≠ "" then return ← cp.pollFollowup machineKey request now
  match ← store (.getNodeByNodeKey request.nodeKey) with
  | some node => cp.registerExisting machineKey request now node
  | none => cp.registerNew machineKey request now

theorem register_body_eq (cp : ControlPlane) (machineKey : MachineKey) (request : RegisterRequest) :
    cp.registerBody machineKey request =
      (cp.bootstrap >>= fun _ => cp.nowRfc3339 >>= cp.registerAt machineKey request) :=
  (bind_bind cp.ensureDefaultUser (fun _ => cp.ensureBootstrapKey) _).symm

/-- The world in which `register` decides, when it starts in `w`. -/
def ControlPlane.bootstrapped (cp : ControlPlane) (w : World) : World := (exec cp.bootstrap w).2

/-- What `register` did to the store before it decides anything: nothing to the nodes and the
pending registrations, a key without tags at most, and no key when the configured one exists, and
nothing at all when the configured rows exist. -/
structure Prelude (cp : ControlPlane) (db₀ db : Db) : Prop where
  nodes : db.nodes = db₀.nodes
  pending : db.pending = db₀.pending
  users : ∃ created, db.users = db₀.users ++ created
  keys : ∃ created, db.preAuthKeys = db₀.preAuthKeys ++ created ∧
    (∀ key ∈ created, key.tags = none) ∧ (KeyConfigured cp db₀ → created = [])
  same : Bootstrapped cp db₀ → db = db₀

theorem Prelude.refl (cp : ControlPlane) (db : Db) : Prelude cp db db :=
  ⟨rfl, rfl, ⟨[], (List.append_nil _).symm⟩,
    ⟨[], (List.append_nil _).symm, List.forall_mem_nil _, fun _ => rfl⟩, fun _ => rfl⟩

theorem Prelude.create {db₀ db' : Db} (h : Prelude cp db₀ db)
    (hmissing : ¬Bootstrapped cp db₀) (hnodes : db'.nodes = db.nodes)
    (hpending : db'.pending = db.pending) (husers : ∃ created, db'.users = db.users ++ created)
    (hkeys : ∃ created, db'.preAuthKeys = db.preAuthKeys ++ created ∧
      (∀ key ∈ created, key.tags = none) ∧ (KeyConfigured cp db₀ → created = [])) :
    Prelude cp db₀ db' := by
  obtain ⟨users, husers₀⟩ := h.users
  obtain ⟨users', husers⟩ := husers
  obtain ⟨keys, hkeys₀, hplain₀, hnone₀⟩ := h.keys
  obtain ⟨keys', hkeys, hplain, hnone⟩ := hkeys
  refine ⟨hnodes.trans h.nodes, hpending.trans h.pending, ⟨users ++ users', ?_⟩,
    ⟨keys ++ keys', ?_, ?_, fun hconfigured => ?_⟩, fun hboot => (hmissing hboot).elim⟩
  · rw [husers, husers₀, List.append_assoc]
  · rw [hkeys, hkeys₀, List.append_assoc]
  · exact List.forall_mem_append.mpr ⟨hplain₀, hplain⟩
  · rw [hnone₀ hconfigured, hnone hconfigured, List.append_nil]

theorem Prelude.mem_keys {db₀ : Db} (h : Prelude cp db₀ db) {key : PreAuthKey}
    (hkey : key ∈ db.preAuthKeys) : key ∈ db₀.preAuthKeys ∨ key.tags = none := by
  obtain ⟨created, hkeys, hplain, -⟩ := h.keys
  rw [hkeys, List.mem_append] at hkey
  exact hkey.imp_right (hplain key)

theorem Prelude.same_keys {db₀ : Db} (h : Prelude cp db₀ db)
    (hconfigured : KeyConfigured cp db₀) : db.preAuthKeys = db₀.preAuthKeys := by
  obtain ⟨created, hkeys, -, hnone⟩ := h.keys
  rw [hkeys, hnone hconfigured, List.append_nil]

theorem Prelude.get_pending {db₀ : Db} (h : Prelude cp db₀ db)
    (authId : String) : db.getPending authId = db₀.getPending authId := by
  unfold Db.getPending
  rw [h.pending]

variable {w₀ w : World}

theorem Prelude.owner_login (h : Prelude cp w₀.db w.db) {row : Node}
    (hrow : row ∈ w₀.db.nodes) : w.ownerLogin row = w₀.ownerLogin row := by
  unfold World.ownerLogin
  cases hid : row.userId with
  | none => rfl
  | some id =>
    -- The owner of a stored row is a stored user, so a new one cannot come first.
    obtain ⟨created, husers⟩ := h.users
    have hstored := Db.get_user_is_some.mpr (w₀.db.valid.nodeUsers row hrow id hid)
    obtain ⟨user, huser⟩ := Option.isSome_iff_exists.mp hstored
    have hsame : w.db.getUser id = some user := by
      unfold Db.getUser at huser ⊢
      rw [husers, List.find?_append, huser]
      rfl
    rw [Option.bind_some, Option.bind_some, hsame, huser]

/-! ## Keys that admit -/

def ControlPlane.keyAccepts (cp : ControlPlane) (secret now : String) (key : PreAuthKey) : Bool :=
  verifySecret cp.ext secret key.secretHash && !key.revoked &&
    !(key.expiration.any fun expiration => cp.ext.isPast expiration now) &&
    !(!key.reusable && key.used)

def ControlPlane.validKey (cp : ControlPlane) (auth : RegisterAuth) (now : String) (db : Db) :
    Option PreAuthKey :=
  match parseAuthKey auth.authKey with
  | none => none
  | some (keyPrefix, secret) => (db.getPreAuthKey keyPrefix).filter (cp.keyAccepts secret now)

structure KeyPresented (cp : ControlPlane) (op : Op) (w₀ : World) (machineKey : MachineKey)
    (request : RegisterRequest) (key : PreAuthKey) : Prop where
  op : op = .register machineKey request
  followup : request.followup = ""
  bootstrap : Prelude cp w₀.db (cp.bootstrapped w₀).db
  valid : ∃ auth, request.auth = some auth ∧
    cp.validKey auth (cp.nowAt (cp.bootstrapped w₀)) (cp.bootstrapped w₀).db = some key

structure FollowupApproved (cp : ControlPlane) (op : Op) (w₀ : World) (machineKey : MachineKey)
    (entry : PendingRegistration) (userId : Nat) (tags : Option (List String)) : Prop where
  op : ∃ request authId, op = .register machineKey request ∧
    authIdFromFollowup request.followup = some authId ∧ w₀.db.getPending authId = some entry
  machine : entry.machineKey = machineKey
  verdict : entry.verdict = .approved userId tags
  live : cp.ext.isPast entry.expiresAt (cp.nowAt (cp.bootstrapped w₀)) = false

/-! ## Node rows -/

/-- The tags of a row after an edit: as they were, given up by a row with an owner, or named by the
owner. -/
inductive Retagged (cp : ControlPlane) (w : World) (row node : Node) : Prop where
  | kept (htags : node.tags = row.tags) (howner : node.userId = row.userId)
  | dropped (hsome : row.userId.isSome) (htags : node.tags = none)
    (howner : node.userId = row.userId)
  | named {tags : List String} (hne : tags ≠ [])
      (hallowed : unauthorizedTags cp.config.policy (w.ownerLogin row) tags = [])
      (htags : node.tags = some tags) (howner : node.userId = none)

structure OwnEdit (cp : ControlPlane) (w : World) (row node : Node) : Prop where
  same : SameRow node row
  authorized : node.machineAuthorized = true → row.machineAuthorized = true
  ephemeral : node.ephemeral = row.ephemeral
  tags : Retagged cp w row node

def PendingRegistration.request (entry : PendingRegistration) : RegisterRequest :=
  { version := entry.version
    nodeKey := entry.nodeKey
    expiry := entry.expiry
    hostinfo := entry.hostinfo
    ephemeral := entry.ephemeral }

inductive NodeAct (cp : ControlPlane) (op : Op) (w₀ w : World) (node : Node) : Prop where
  | edit {row : Node} (hstart : row ∈ w₀.db.nodes) (hrow : row ∈ w.db.nodes)
      (hedit : OwnEdit cp w₀ row node)
  | reauthorize {machineKey : MachineKey} {request : RegisterRequest} {key : PreAuthKey}
    {row : Node}
      (hkey : KeyPresented cp op w₀ machineKey request key) (hrow : row ∈ w.db.nodes)
      (hnodes : w.db.nodes = w₀.db.nodes) (hnodeKey : row.nodeKey = request.nodeKey)
      (hmachine : row.machineKey = machineKey) (hnot : row.machineAuthorized = false)
      (hnode : node = { row with
        machineAuthorized := true, tags := key.tags, ephemeral := key.ephemeral })
  | enroll {machineKey : MachineKey} {request : RegisterRequest} {key : PreAuthKey} {now : String}
      {ipv4 : Ipv4Addr} {ipv6 : Ipv6Addr}
      (hkey : KeyPresented cp op w₀ machineKey request key) (hconfigured : Configured cp w.db)
      (hnodes : w.db.nodes = w₀.db.nodes) (hnew : ∀ row ∈ w.db.nodes, row.nodeKey ≠ request.nodeKey)
      (hnode : node =
        cp.newNode machineKey request key.userId key.tags key.ephemeral now ipv4 ipv6)
  | complete {machineKey : MachineKey} {entry : PendingRegistration} {userId : Nat}
      {tags : Option (List String)} {now : String} {ipv4 : Ipv4Addr} {ipv6 : Ipv6Addr}
      (happroved : FollowupApproved cp op w₀ machineKey entry userId tags)
      (hconfigured : Configured cp w.db) (hnodes : w.db.nodes = w₀.db.nodes)
      (hlast : Grounded cp w₀.db → w.db.lastInsertRowid = w₀.db.lastInsertRowid)
      (hretry : ∀ row ∈ w.db.nodes, row.nodeKey = entry.nodeKey →
        ¬(row.machineKey = machineKey ∧ row.machineAuthorized = true))
      (hnode : node =
        cp.newNode machineKey entry.request userId tags entry.ephemeral now ipv4 ipv6)

/-! ## Pre-auth keys and pending registrations -/

inductive KeyAct (cp : ControlPlane) (op : Op) (key : PreAuthKey) : Prop where
  | bootstrap (htags : key.tags = none)
  | create {keyPrefix : String} {reusable ephemeral : Bool} {expiration : Option String}
      (hop : op = .createPreAuthKey keyPrefix reusable ephemeral expiration key.tags)
      (hallowed : unauthorizedTags cp.config.policy (some cp.config.userLoginName)
        (key.tags.getD []) = [])

/-- The operation approves a pending registration for a login, when it starts in `w`. -/
def Op.Approves (w : World) (authId userName : String) : Op → Prop
  | .approvePending id name => id = authId ∧ name = userName
  | .handleOidcCallback params => ∃ state flow profile, params["state"]? = some state ∧
      (w.flows.take state (w.env.clock w.env.position)).1 = some flow ∧ flow.authId = authId ∧
      w.env.exchanges (w.env.position + 2) = .verified profile ∧ profile.email = userName
  | _ => False

def approvedTags (entry : PendingRegistration) : Option (List String) :=
  if requestedTags entry.hostinfo = [] then none else some (requestedTags entry.hostinfo)

inductive PendingAct (cp : ControlPlane) (op : Op) (w₀ w : World) (entry : PendingRegistration) :
    Prop where
  | start {machineKey : MachineKey} {request : RegisterRequest} {i : Nat}
      (hop : op = .register machineKey request) (hdrawn : w₀.env.position ≤ i)
      (hid : entry.authId = w₀.env.secrets i) (hverdict : entry.verdict = .pending)
      (hboot : cp.HasIds → Bootstrapped cp w.db)
  | approve {authId userName : String} {before : PendingRegistration} {user : User}
      (hop : op.Approves w₀ authId userName) (hbefore : w.db.getPending authId = some before)
      (huser : user ∈ w.db.users) (hname : user.loginName = userName)
      (hallowed : unauthorizedTags cp.config.policy (some userName)
        (requestedTags before.hostinfo) = [])
      (hentry : entry = { before with verdict := .approved user.id (approvedTags before) })
  | reject {authId : String} {before : PendingRegistration} (hop : op = .rejectPending authId)
      (hbefore : w.db.getPending authId = some before)
      (hentry : entry = { before with verdict := .rejected })

/-- Why a pending registration is dropped: the clock is past its expiry, or its machine followed it
up. -/
inductive Drops (cp : ControlPlane) (op : Op) (w₀ w : World) (authId : String) : Prop where
  | expired {entry : PendingRegistration} {i : Nat} (hentry : w.db.getPending authId = some entry)
      (hfrom : w₀.env.position ≤ i) (hto : i < w.env.position)
      (hpast : cp.ext.isPast entry.expiresAt (cp.ext.formatRfc3339 (w₀.env.clock i)) = true)
  | answered {machineKey : MachineKey} {request : RegisterRequest} {entry : PendingRegistration}
      (hop : op = .register machineKey request)
      (hauth : authIdFromFollowup request.followup = some authId)
      (hentry : w.db.getPending authId = some entry) (hmachine : entry.machineKey = machineKey)

/-! ## The guard -/

/-- The calls that an operation may make when it started in `w₀`. -/
def Acts (cp : ControlPlane) (op : Op) (w₀ w : World) : Call → Prop
  | .store (.upsertNode node) => NodeAct cp op w₀ w node
  | .store (.createUser user) =>
    user.id = cp.config.userId ∨ (Grounded cp w.db → w.db.users ≠ [])
  | .store (.createLogin login) =>
    login.id = cp.config.loginId ∨ (Grounded cp w.db → w.db.logins ≠ [])
  | .store (.createPreAuthKey key) => KeyAct cp op key
  | .store (.savePending entry) => PendingAct cp op w₀ w entry
  | .store (.deletePending authId) => Drops cp op w₀ w authId
  | _ => True

def Call.Plain : Call → Prop
  | .store (.upsertNode _) | .store (.createUser _) | .store (.createLogin _)
  | .store (.createPreAuthKey _) | .store (.savePending _) | .store (.deletePending _)
  | .store (.saveSshAuth _) | .store (.deleteSshAuth _) => False
  | .memory (.sessionOpen _ _ _) | .memory (.sessionClose _ _) | .memory (.sessionTick _) => False
  | _ => True

theorem Call.Plain.acts {op : Op} {c : Call} (hc : c.Plain) : Acts cp op w₀ w c := by
  cases c with
  | store c => cases c <;> trivial
  | memory c => trivial
  | env c => trivial

theorem Call.Quiet.plain {c : Call} (hc : c.Quiet) : c.Plain := by
  cases c with
  | store c => cases c <;> trivial
  | memory c => cases c <;> trivial
  | env c => trivial

variable {cp : ControlPlane}

/-! ## Reads -/

theorem reads_get_login (id : Nat) :
    Reads handler (store (.getLogin id)) fun w => w.db.getLogin id :=
  reads_store (c := .getLogin id) (f := fun db => db.getLogin id) fun _ => rfl

theorem reads_get_pre_auth_key (keyPrefix : String) :
    Reads handler (store (.getPreAuthKey keyPrefix)) fun w => w.db.getPreAuthKey keyPrefix :=
  reads_store (c := .getPreAuthKey keyPrefix) (f := fun db => db.getPreAuthKey keyPrefix)
    fun _ => rfl

/-- With the configured rows stored, the first part of `register` does nothing. -/
theorem bootstrap_run (h : Bootstrapped cp w.db) : exec cp.bootstrap w = (.ok (), w) := by
  obtain ⟨user, huser⟩ := Option.isSome_iff_exists.mp (Db.get_user_is_some.mpr h.user)
  obtain ⟨login, hlogin⟩ := Option.isSome_iff_exists.mp (Db.get_login_is_some.mpr h.login)
  have hensureUser : cp.ensureUser.run handler w = (.ok (), w) := by
    rw [ensureUser, run_bind_ok handler (reads_get_user _ w)]
    dsimp only
    rw [huser]
    rfl
  have hensureLogin : cp.ensureLogin.run handler w = (.ok (), w) := by
    rw [ensureLogin, run_bind_ok handler (reads_get_login _ w)]
    dsimp only
    rw [hlogin]
    rfl
  have hkey : cp.ensureBootstrapKey.run handler w = (.ok (), w) := by
    unfold ensureBootstrapKey
    cases hparse : parseAuthKey cp.config.authKey with
    | none => rfl
    | some parsed =>
      obtain ⟨key, hkey⟩ := Option.isSome_iff_exists.mp
        (Db.get_pre_auth_key_is_some.mpr (h.key parsed.1 parsed.2 hparse))
      dsimp only
      rw [run_bind_ok handler (reads_get_pre_auth_key _ w)]
      dsimp only
      rw [hkey]
      rfl
  rw [exec, bootstrap, ensureDefaultUser,
    run_bind_ok handler (run_bind_ok handler hensureUser |>.trans hensureLogin)]
  exact hkey

variable {G : World → Call → Prop}

theorem triple_bind_read {α β : Type} {p : ControlM α} {f : World → α} {k : α → ControlM β}
    {P : World → Prop} {Q : β → World → Prop} {E : ControlError → World → Prop}
    (hG : AllowsQuiet G) (hp : Reads handler p f) (hquiet : p.Calls Call.Quiet)
    (hk : ∀ value, Triple handler G (fun w => P w ∧ f w = value) (k value) Q E) :
    Triple handler G P (p >>= k) Q E :=
  (hp.triple (quiet_safe hquiet hG) fun _ hw => ⟨hw, rfl⟩).bind hk

theorem reads_get_pending (authId : String) :
    Reads handler (store (.getPending authId)) fun w => w.db.getPending authId :=
  reads_store (c := .getPending authId) (f := fun db => db.getPending authId) fun _ => rfl

theorem validated_auth_key_calls {P : Call → Prop}
    (hlookup : ∀ keyPrefix, P (.store (.getPreAuthKey keyPrefix))) (auth : RegisterAuth)
    (now : String) : (cp.validatedAuthKey auth now).Calls P := by
  unfold validatedAuthKey
  cases parseAuthKey auth.authKey with
  | none => exact calls_pure _
  | some parsed =>
    refine Calls.bind (calls_store (hlookup _)) fun found => ?_
    cases found with
    | none => exact calls_pure _
    | some key =>
      dsimp only
      split
      · exact calls_pure _
      split
      · exact calls_pure _
      split
      · exact calls_pure _
      split <;> exact calls_pure _

theorem validated_auth_key_quiet (auth : RegisterAuth) (now : String) :
    (cp.validatedAuthKey auth now).Calls Call.Quiet :=
  validated_auth_key_calls (fun _ => trivial) auth now

theorem reads_validated_auth_key (auth : RegisterAuth) (now : String) :
    Reads handler (cp.validatedAuthKey auth now) fun w => cp.validKey auth now w.db := by
  unfold validatedAuthKey validKey
  cases parseAuthKey auth.authKey with
  | none => exact Reads.pure none
  | some parsed =>
    refine ((reads_get_pre_auth_key parsed.1).bind
      (g := fun found _ => found.filter (cp.keyAccepts parsed.2 now)) fun found => ?_).congr
        fun _ => rfl
    cases found with
    | none => exact Reads.pure none
    | some key =>
      rw [Option.filter_some]
      unfold keyAccepts
      dsimp only
      cases verifySecret cp.ext parsed.2 key.secretHash
      · exact Reads.pure none
      cases key.revoked
      case true => exact Reads.pure none
      cases key.expiration.any fun expiration => cp.ext.isPast expiration now
      case true => exact Reads.pure none
      cases !key.reusable && key.used <;> exact Reads.pure _

/-! ## Parts that leave the database -/

theorem compile_node_quiet (node : Node) : (compileNode node).Calls Call.Quiet :=
  Calls.bind (node_owner_login_quiet node) fun _ => calls_pure _

theorem compile_nodes_quiet : compileNodes.Calls Call.Quiet :=
  Calls.bind (calls_store trivial) fun _ => Calls.mapM compile_node_quiet

theorem effective_routes_quiet (node : Node) : (cp.effectiveApprovedRoutes node).Calls Call.Quiet :=
  Calls.bind (compile_node_quiet node) fun _ => calls_pure _

theorem peer_node_quiet (stored : Node) (version : Nat) :
    (cp.peerNode stored version).Calls Call.Quiet :=
  Calls.bind (calls_perform.mpr trivial) fun _ =>
    Calls.bind (effective_routes_quiet stored) fun _ => calls_pure _

theorem build_dns_config_quiet : cp.buildDnsConfig.Calls Call.Quiet := by
  refine Calls.bind (calls_perform.mpr trivial) fun records => ?_
  dsimp only
  split
  · exact calls_pure _
  · exact Calls.bind (calls_store trivial) fun _ => calls_pure _

theorem build_initial_map_quiet (node : Node) (request : MapRequest) :
    (cp.buildInitialMap node request).Calls Call.Quiet :=
  Calls.bind compile_nodes_quiet fun _ =>
    Calls.bind (effective_routes_quiet node) fun _ =>
      Calls.bind (calls_store trivial) fun _ =>
        Calls.bind (Calls.mapM fun stored => peer_node_quiet stored request.version) fun _ =>
          Calls.bind (Calls.bind (Calls.mapM fun _ => calls_store trivial) fun _ => calls_pure _)
            fun _ => Calls.bind (calls_perform.mpr trivial) fun _ =>
              Calls.bind build_dns_config_quiet fun _ => calls_pure _

theorem answer_map_request_off_tables (node : Node) (request : MapRequest) :
    (cp.answerMapRequest node request).Calls Call.OffTables := by
  unfold answerMapRequest
  split
  · exact calls_pure _
  refine Calls.bind ((build_initial_map_quiet node request).mono fun _ hc => hc.off_tables)
    fun response =>
    Calls.bind ?_ fun frame => ?_
  · unfold encodeFrame
    split
    · exact calls_throw _
    · exact calls_pure _
  · split
    · exact Calls.bind (open_session_calls trivial (fun _ => trivial) fun _ => trivial) fun _ =>
        calls_pure _
    · exact calls_pure _

theorem close_session_off_tables (sessionId : Nat) :
    (closeSession sessionId).Calls Call.OffTables :=
  Calls.bind (calls_perform.mpr trivial) fun _ =>
    Calls.bind (calls_perform.mpr trivial) fun _ => calls_pure _

/-! ## Parts that write SSH approvals only -/

def Call.OnSsh : Call → Prop
  | .store (.saveSshAuth _) | .store (.deleteSshAuth _) => True
  | c => c.Quiet

theorem Call.Quiet.on_ssh {c : Call} (hc : c.Quiet) : c.OnSsh := by
  cases c with
  | store c => cases c <;> trivial
  | memory c => exact hc
  | env c => trivial

theorem Call.OnSsh.writes {c : Call} (hc : c.OnSsh) {table : Table} (htable : .sshAuths ≠ table) :
    c.writes ≠ some table := by
  intro hwrites
  obtain ⟨c, rfl⟩ := Call.store_of_writes hwrites
  cases c <;> first | exact hc.elim | cases hwrites <;> exact htable rfl

theorem Call.OnSsh.nodes_eq {c : Call} (hc : c.OnSsh) (w : World) :
    (handler c w).2.db.nodes = w.db.nodes :=
  (c.same_but w).nodes (hc.writes nofun)

theorem now_on_ssh (cp : ControlPlane) : cp.nowRfc3339.Calls Call.OnSsh :=
  (now_quiet cp).mono fun _ hc => hc.on_ssh

theorem delete_ssh_auths_calls (entries : List SshAuth) :
    (deleteSshAuths entries).Calls Call.OnSsh :=
  Calls.forM fun _ => calls_store trivial

theorem prune_ssh_auths_calls (limit : Nat) : (cp.pruneSshAuths limit).Calls Call.OnSsh := by
  refine Calls.bind (now_on_ssh cp) fun now => Calls.bind (calls_store trivial) fun entries =>
    Calls.bind (delete_ssh_auths_calls _) fun _ => ?_
  dsimp only
  split
  · exact delete_ssh_auths_calls _
  · exact calls_pure _

/-! ## Later than the start -/

/-- Later than `w₀`: the environment is the same, and has given at least `n` answers. -/
structure Since (w₀ : World) (n : Nat) (w : World) : Prop where
  env : w.env = { w₀.env with position := w.env.position }
  le : n ≤ w.env.position

theorem Since.refl (w : World) : Since w w.env.position w := ⟨rfl, Nat.le_refl _⟩

theorem Since.mono {m n : Nat} (h : Since w₀ n w) (hle : m ≤ n) : Since w₀ m w :=
  ⟨h.env, hle.trans h.le⟩

theorem Since.call {n : Nat} (h : Since w₀ n w) (c : Call) : Since w₀ n (handler c w).2 := by
  cases c with
  | store c => exact ⟨h.env, h.le⟩
  | memory c => cases c <;> exact ⟨h.env, h.le⟩
  | env c =>
    exact ⟨congrArg (fun env : Env => { env with position := w.env.position + 1 }) h.env,
      Nat.le_succ_of_le h.le⟩

theorem Since.clock {n : Nat} (h : Since w₀ n w) : w.env.clock = w₀.env.clock := by
  rw [h.env]

theorem Since.secrets {n : Nat} (h : Since w₀ n w) : w.env.secrets = w₀.env.secrets := by
  rw [h.env]

/-- A property of the database, later than `w₀`. -/
def At (w₀ : World) (n : Nat) (R : Db → Prop) (w : World) : Prop := R w.db ∧ Since w₀ n w

section Later

variable {α β : Type} {w₀ : World} {n : Nat} {R : Db → Prop} {G : World → Call → Prop}
  {Q : β → World → Prop} {E : ControlError → World → Prop}

theorem quiet_bind {p : ControlM α} {k : α → ControlM β} (hG : AllowsQuiet G)
    (hp : p.Calls Call.Quiet)
    (hk : ∀ value, Triple handler G (At w₀ n R) (k value) Q (fun _ _ => True)) :
    Triple handler G (At w₀ n R) (p >>= k) Q (fun _ _ => True) := by
  have hquiet := hp.triple (P := At w₀ n R) (fun c hc w _ => hG w c hc) fun c hc w hw =>
    ⟨by rw [hc.db_eq w]; exact hw.1, hw.2.call c⟩
  exact (hquiet.weaken (fun _ h => h) (fun _ _ h => h) fun _ _ _ => trivial).bind hk

theorem time_bind {k : String → ControlM β} (hG : AllowsQuiet G) (hn : w₀.env.position ≤ n)
    (hk : ∀ i, w₀.env.position ≤ i → Triple handler G (At w₀ (i + 1) R)
      (k (cp.ext.formatRfc3339 (w₀.env.clock i))) Q E) :
    Triple handler G (At w₀ n R) (cp.nowRfc3339 >>= k) Q E := by
  intro w hw
  have hnow : cp.nowAt w = cp.ext.formatRfc3339 (w₀.env.clock w.env.position) := by
    rw [nowAt, hw.2.clock]
  have htick : At w₀ (w.env.position + 1) R w.tick :=
    ⟨hw.1, (hw.2.call (.env .now)).env, Nat.le_refl _⟩
  refine triple_bind_run (quiet_safe (now_quiet cp) hG w) (now_run cp w) (fun w' hw' => ?_) w rfl
  rw [hw', hnow]
  exact hk w.env.position (hn.trans hw.2.le) w.tick htick

theorem secret_bind {k : String → ControlM β} (hG : AllowsQuiet G) (hn : w₀.env.position ≤ n)
    (hk : ∀ i, w₀.env.position ≤ i →
      Triple handler G (At w₀ n R) (k (w₀.env.secrets i)) Q E) :
    Triple handler G (At w₀ n R) (environment .generateSecret >>= k) Q E := by
  intro w hw
  have hrun : (environment .generateSecret).run handler w =
      (.ok (w₀.env.secrets w.env.position), w.tick) := by
    rw [← hw.2.secrets]
    rfl
  have htick : At w₀ n R w.tick := ⟨hw.1, hw.2.call (.env .generateSecret)⟩
  have hquiet : (environment .generateSecret).Calls Call.Quiet := calls_perform.mpr trivial
  refine triple_bind_run (quiet_safe hquiet hG w) hrun (fun w' hw' => ?_) w rfl
  rw [hw']
  exact hk w.env.position (hn.trans hw.2.le) w.tick htick

end Later

end Crabscale.Control
