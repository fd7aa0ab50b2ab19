import Crabscale.Control.SshActs

/-!
# Every operation keeps to the guard

Each part of the operations makes only calls that `Deeds` allows, and `Op.deeds` puts the parts
together. What the allowed calls keep, an operation keeps: `Op.keeps_world` for what the calls do,
`Op.invariant` for the coarser view that is enough for the rows' keys.
-/

namespace Crabscale.Control

open Rust Proto Policy Interaction Interaction.Program ControlPlane

variable {cp : ControlPlane} {op : Op} {w₀ : World} {n : Nat}

/-- A program that keeps to the guard and ends with an error or as `Q` says. -/
abbrev Leads {α : Type} (cp : ControlPlane) (op : Op) (w₀ : World) (P : World → Prop)
    (p : ControlM α) (Q : α → World → Prop) : Prop :=
  Triple handler (Deeds cp op w₀) P p Q (fun _ _ => True)

/-- A program that keeps to the guard; nothing is said about where it ends. -/
abbrev Performs {α : Type} (cp : ControlPlane) (op : Op) (w₀ : World) (P : World → Prop)
    (p : ControlM α) : Prop :=
  Triple handler (Deeds cp op w₀) P p (fun _ _ => True) (fun _ _ => True)

theorem calls_do {α : Type} {C : Call → Prop} {p : ControlM α} (hp : p.Calls C)
    (hC : ∀ w c, C c → Deeds cp op w₀ w c) (P : World → Prop) : Performs cp op w₀ P p :=
  (hp.triple (P := fun _ => True) (fun c hc w _ => hC w c hc) fun _ _ _ _ => trivial).pre
    fun _ _ => trivial

theorem plain_does {α : Type} {p : ControlM α} (hp : p.Calls Call.Plain) (P : World → Prop) :
    Performs cp op w₀ P p :=
  calls_do hp (fun _ _ hc => hc.deeds) P

theorem on_sessions_does {α : Type} {p : ControlM α} (hop : op.isSession = true)
    (hp : p.Calls Call.OnSessions) (P : World → Prop) : Performs cp op w₀ P p :=
  calls_do hp (fun _ _ hc => hc.deeds hop) P

theorem quiet_does {α : Type} {p : ControlM α} (hp : p.Calls Call.Quiet) (P : World → Prop) :
    Performs cp op w₀ P p :=
  plain_does (hp.mono fun _ hc => hc.plain) P

/-! ## Before a registration decides -/

theorem ensure_user_spec :
    Leads cp op w₀ (fun w => Prelude cp w₀.db w.db) cp.ensureUser
      (fun _ w => Prelude cp w₀.db w.db ∧
        (cp.HasIds → cp.config.userId ∈ w.db.users.map User.id)) := by
  unfold ensureUser
  refine triple_bind_read deeds_quiet (reads_get_user _) (calls_store trivial) fun found => ?_
  cases found with
  | some user =>
    refine triple_pure fun w hw => ⟨hw.1, fun _ => ?_⟩
    rw [← Db.get_user_is_some, hw.2]
    rfl
  | none =>
    refine Triple.bind (triple_store (fun _ _ => .mk (.inl rfl) trivial trivial) ?_
      fun _ _ _ _ _ => trivial)
      fun _ => triple_pure fun _ hw => hw
    rintro w ⟨hprelude, hnone⟩ user db hrun
    obtain ⟨htables, rfl⟩ := Db.statement_ok hrun
    have hmissing : ¬Bootstrapped cp w₀.db := by
      intro hboot
      have hsome := Db.get_user_is_some.mpr hboot.user
      rw [← hprelude.same hboot, hnone] at hsome
      cases hsome
    have husers := congrArg Tables.users htables
    refine ⟨hprelude.create hmissing (by rw [htables]) (by rw [htables]) ⟨_, husers⟩
      ⟨[], by rw [htables, List.append_nil], List.forall_mem_nil _, fun _ => rfl⟩, fun hids => ?_⟩
    rw [husers]
    simp [hids.1]

theorem ensure_login_spec :
    Leads cp op w₀
      (fun w => Prelude cp w₀.db w.db ∧ (cp.HasIds → cp.config.userId ∈ w.db.users.map User.id))
      cp.ensureLogin
      (fun _ w => Prelude cp w₀.db w.db ∧
        (cp.HasIds → cp.config.userId ∈ w.db.users.map User.id ∧
          cp.config.loginId ∈ w.db.logins.map Login.id)) := by
  unfold ensureLogin
  refine triple_bind_read deeds_quiet (reads_get_login _) (calls_store trivial) fun found => ?_
  cases found with
  | some login =>
    refine triple_pure fun w hw => ⟨hw.1.1, fun hids => ⟨hw.1.2 hids, ?_⟩⟩
    rw [← Db.get_login_is_some, hw.2]
    rfl
  | none =>
    refine Triple.bind (triple_store (fun _ _ => .mk (.inl rfl) trivial trivial) ?_
      fun _ _ _ _ _ => trivial)
      fun _ => triple_pure fun _ hw => hw
    rintro w ⟨⟨hprelude, huser⟩, hnone⟩ login db hrun
    obtain ⟨htables, rfl⟩ := Db.statement_ok hrun
    have hmissing : ¬Bootstrapped cp w₀.db := by
      intro hboot
      have hsome := Db.get_login_is_some.mpr hboot.login
      rw [← hprelude.same hboot, hnone] at hsome
      cases hsome
    refine ⟨hprelude.create hmissing (by rw [htables]) (by rw [htables])
      ⟨[], by rw [htables, List.append_nil]⟩
      ⟨[], by rw [htables, List.append_nil], List.forall_mem_nil _, fun _ => rfl⟩,
      fun hids => ⟨?_, ?_⟩⟩
    · rw [congrArg Tables.users htables]
      exact huser hids
    · rw [congrArg Tables.logins htables]
      simp [hids.2]

/-- The state in which `register` decides: the configured rows exist. -/
structure Started (cp : ControlPlane) (db₀ db : Db) : Prop extends Prelude cp db₀ db,
  Configured cp db

/-- The default user and login exist. -/
def Owned (cp : ControlPlane) (db₀ db : Db) : Prop :=
  Prelude cp db₀ db ∧ (cp.HasIds → cp.config.userId ∈ db.users.map User.id ∧
    cp.config.loginId ∈ db.logins.map Login.id)

theorem ensure_default_user_spec :
    Leads cp op w₀ (fun w => Prelude cp w₀.db w.db) cp.ensureDefaultUser
      (fun _ w => Owned cp w₀.db w.db) :=
  ensure_user_spec.bind fun _ => ensure_login_spec

theorem Owned.started {db₀ db : Db} (h : Owned cp db₀ db) (hconfigured : KeyConfigured cp db) :
    Started cp db₀ db :=
  ⟨h.1, fun hids => ⟨(h.2 hids).1, (h.2 hids).2, hconfigured⟩, hconfigured⟩

def Unkeyed (cp : ControlPlane) (db₀ : Db) (keyPrefix : String) (db : Db) : Prop :=
  Owned cp db₀ db ∧ db.getPreAuthKey keyPrefix = none

theorem create_bootstrap_key_spec {keyPrefix secret : String}
    (hkey : parseAuthKey cp.config.authKey = some (keyPrefix, secret)) :
    Leads cp op w₀
      (fun w => Unkeyed cp w₀.db keyPrefix w.db)
      (cp.createBootstrapKey keyPrefix secret) (fun _ w => Started cp w₀.db w.db) := by
  have hquiet {α β : Type} {p : ControlM α} {k : α → ControlM β} (hp : p.Calls Call.Quiet)
      (hk : ∀ value, Leads cp op w₀ (fun w => Unkeyed cp w₀.db keyPrefix w.db)
        (k value) (fun _ w => Started cp w₀.db w.db)) :=
    ((quiet_triple hp deeds_quiet (Unkeyed cp w₀.db keyPrefix)).weaken (fun _ h => h)
      (fun _ _ h => h) fun _ _ _ => trivial).bind hk
  unfold createBootstrapKey
  refine hquiet (calls_perform.mpr trivial) fun salt => hquiet (now_quiet cp) fun now => ?_
  refine Triple.bind (triple_store (fun _ _ => .mk (.bootstrap rfl) trivial trivial) ?_
    fun _ _ _ _ _ => trivial) fun _ => triple_pure fun _ hw => hw
  rintro w ⟨⟨hprelude, howner⟩, hnone⟩ key db hrun
  obtain ⟨htables, rfl⟩ := Db.statement_ok hrun
  have hmissing : ¬KeyConfigured cp w₀.db := by
    intro hconfigured
    have hsome := Db.get_pre_auth_key_is_some.mpr (hconfigured keyPrefix secret hkey)
    unfold Db.getPreAuthKey at hnone hsome
    rw [← hprelude.same_keys hconfigured, hnone] at hsome
    cases hsome
  refine Owned.started ⟨?_, fun hids => ⟨?_, ?_⟩⟩ ?_
  · exact hprelude.create (fun hboot => hmissing hboot.key) (by rw [htables]) (by rw [htables])
      ⟨[], by rw [htables, List.append_nil]⟩ ⟨_, congrArg Tables.preAuthKeys htables,
        List.forall_mem_singleton.mpr rfl, fun hconfigured => (hmissing hconfigured).elim⟩
  · rw [congrArg Tables.users htables]
    exact (howner hids).1
  · rw [congrArg Tables.logins htables]
    exact (howner hids).2
  · intro otherPrefix otherSecret hother
    rw [hkey] at hother
    cases hother
    rw [congrArg Tables.preAuthKeys htables]
    simp

theorem ensure_bootstrap_key_spec :
    Leads cp op w₀ (fun w => Owned cp w₀.db w.db) cp.ensureBootstrapKey
      (fun _ w => Started cp w₀.db w.db) := by
  unfold ensureBootstrapKey
  cases hkey : parseAuthKey cp.config.authKey with
  | none =>
    refine triple_pure fun w hw => hw.started fun keyPrefix secret hsome => ?_
    rw [hkey] at hsome
    cases hsome
  | some parsed =>
    obtain ⟨keyPrefix, secret⟩ := parsed
    refine triple_bind_read deeds_quiet (reads_get_pre_auth_key _) (calls_store trivial)
      fun found => ?_
    cases found with
    | none => exact create_bootstrap_key_spec hkey
    | some key =>
      refine triple_pure fun w hw => hw.1.started fun otherPrefix otherSecret hother => ?_
      rw [hkey] at hother
      cases hother
      rw [← Db.get_pre_auth_key_is_some, hw.2]
      rfl

theorem bootstrap_spec :
    Leads cp op w₀ (· = w₀) cp.bootstrap
      (fun _ w => Started cp w₀.db w.db ∧ Since w₀ w₀.env.position w ∧ w = cp.bootstrapped w₀) := by
  have hstarted : Leads cp op w₀ (· = w₀) cp.bootstrap
      (fun _ w => Started cp w₀.db w.db) :=
    (ensure_default_user_spec.pre fun w hw => hw ▸ Prelude.refl cp w.db).bind fun _ =>
      ensure_bootstrap_key_spec
  have hsince := hstarted.frame (I := Since w₀ w₀.env.position) fun w c hw _ => hw.call c
  refine ((hsince.run_state ⟨rfl, .refl w₀⟩).weaken (fun _ h => h) ?_ fun _ _ _ => trivial)
  intro _ w hw
  exact ⟨hw.1.1, hw.1.2, hw.2⟩

/-! ## Writing node rows -/

variable {node : Node}

theorem write_does {β : Type} {k : Node → ControlM β} {P : World → Prop}
    (hwrite : ∀ w, P w → NodeAct cp op w₀ w node ∧ Placed cp w.db.nodes node)
    (hk : ∀ stored, (k stored).Calls Call.Plain) :
    Performs cp op w₀ P (store (.upsertNode node) >>= k) :=
  (triple_store (fun w hw => .mk (hwrite w hw).1 (hwrite w hw).2 trivial)
    (fun _ _ _ _ _ => trivial) fun _ _ _ _ _ => trivial).bind fun stored =>
    plain_does (hk stored) fun _ => True

theorem publish_plain (event : ChangeEvent) : (publishChange event).Calls Call.Plain :=
  (publish_quiet event).mono fun _ hc => hc.plain

theorem save_node_does {P : World → Prop}
    (hwrite : ∀ w, P w → NodeAct cp op w₀ w node ∧ Placed cp w.db.nodes node) :
    Performs cp op w₀ P (saveNode node) :=
  write_does hwrite fun _ => publish_plain _

theorem admit_node_does {P : World → Prop}
    (hwrite : ∀ w, P w → NodeAct cp op w₀ w node ∧ Placed cp w.db.nodes node) :
    Performs cp op w₀ P (admitNode node) :=
  write_does hwrite fun _ => publish_plain _

theorem consume_key_plain (key : PreAuthKey) : (consumeKey key).Calls Call.Plain := by
  unfold consumeKey
  split
  · exact calls_store trivial
  · exact calls_pure _

structure Read (w₀ : World) (row : Node) (w : World) : Prop where
  start : row ∈ w₀.db.nodes
  stored : row ∈ w.db.nodes
  owner : w.ownerLogin row = w₀.ownerLogin row

variable {w : World}

theorem Read.of_prelude {row : Node} (hprelude : Prelude cp w₀.db w.db)
    (hrow : row ∈ w.db.nodes) : Read w₀ row w := by
  have hstart : row ∈ w₀.db.nodes := hprelude.nodes ▸ hrow
  exact ⟨hstart, hrow, hprelude.owner_login hstart⟩

theorem Read.of_eq {row : Node} (h : w = w₀) (hrow : row ∈ w.db.nodes) : Read w₀ row w :=
  h ▸ ⟨h ▸ hrow, h ▸ hrow, rfl⟩

theorem Read.edit {row : Node} (h : Read w₀ row w) (hedit : OwnEdit cp w₀ row node)
    (hplacing : SamePlacing row node) : NodeAct cp op w₀ w node ∧ Placed cp w.db.nodes node :=
  ⟨.edit h.start h.stored hedit, hplacing.placed h.stored⟩

theorem logout_node_does (node : Node) (nodeKeyExpired : Bool) :
    Performs cp op w₀ (Read w₀ node) (cp.logoutNode node nodeKeyExpired) := by
  unfold logoutNode
  split
  · exact triple_done
  split
  · exact plain_does (Calls.bind (calls_store (c := .deleteNode _) trivial) fun _ =>
      Calls.bind (publish_plain _) fun _ => calls_pure _) _
  · refine write_does (fun _ hw => hw.edit ?_ ⟨rfl, rfl, rfl, rfl, .inl rfl⟩) fun _ =>
      Calls.bind (publish_plain _) fun _ => calls_pure _
    exact ⟨⟨rfl, rfl, rfl, rfl⟩, fun h => absurd h Bool.false_ne_true, rfl, .kept rfl rfl⟩

theorem retag_retagged {updated : Node} {requested : List String}
    (h : cp.retag (w.ownerLogin node) node requested = some updated) :
    Retagged cp w node updated ∧ updated.machineAuthorized = node.machineAuthorized ∧
      updated.ephemeral = node.ephemeral := by
  unfold retag at h
  split at h
  · cases h
    exact ⟨.kept rfl rfl, rfl, rfl⟩
  split at h
  · split at h
    case isFalse => cases h
    case isTrue hsome =>
      cases h
      exact ⟨.dropped hsome rfl rfl, rfl, rfl⟩
  case isFalse hne =>
    split at h
    case isFalse => cases h
    case isTrue hallowed =>
      cases h
      exact ⟨.named hne hallowed rfl rfl, rfl, rfl⟩

theorem relogin_does (node : Node) (request : RegisterRequest) :
    Performs cp op w₀ (Read w₀ node) (cp.relogin node request) := by
  unfold relogin
  refine triple_bind_read deeds_quiet (reads_node_owner_login node)
    (node_owner_login_quiet node) fun owner => ?_
  refine Triple.assume (φ := node.userId = none → owner = none)
    (fun w hw hnone => hw.2.symm.trans (owner_login_none hnone)) fun howner => ?_
  rw [apply_request_tags_done cp howner, retagResult]
  cases hretag : cp.retag owner node (requestedTags request.hostinfo) with
  | none => exact triple_failed
  | some updated =>
    change Performs cp op w₀ _ (if _ then _ else _)
    split
    case isFalse => exact triple_done
    case isTrue =>
      refine (save_node_does fun w hw => hw.1.edit ?_ (retag_placing hretag)).bind fun _ =>
        triple_done
      have howner : w₀.ownerLogin node = owner := hw.1.owner.symm.trans hw.2
      obtain ⟨htags, hauthorized, hephemeral⟩ := retag_retagged (howner ▸ hretag)
      exact ⟨retag_same_row hretag, fun h => hauthorized ▸ h, hephemeral, htags⟩

/-! ## Pending registrations -/

theorem get_pending_entry_spec {G : World → Call → Prop} (hG : AllowsQuiet G) (authId : String)
    (R : Db → Prop) :
    Triple handler G (At w₀ n R) (getPendingEntry authId)
      (fun found => At w₀ n fun db => R db ∧ db.getPending authId = found) (fun _ _ => True) := by
  unfold getPendingEntry
  refine triple_bind_read hG (reads_get_pending authId) (calls_store trivial) fun found => ?_
  cases found with
  | none => exact triple_pure fun _ hw => ⟨⟨hw.1.1, hw.2⟩, hw.1.2⟩
  | some entry =>
    have hcache : (memory (.pendingInsert entry)).Calls Call.Quiet := calls_perform.mpr trivial
    refine (quiet_bind (R := fun db => R db ∧ db.getPending authId = some entry) hG hcache
      fun _ => triple_pure fun _ hw => hw).pre fun w hw => ?_
    exact ⟨⟨hw.1.1, hw.2⟩, hw.1.2⟩

theorem save_pending_spec {entry : PendingRegistration} {R : Db → Prop}
    {Q : World → Prop} (hact : ∀ w, At w₀ n R w → PendingAct cp op w₀ w entry ∧
      Saves cp op w₀ w (.store (.savePending entry)))
    (hpost : ∀ w db, At w₀ n R w → w.db.savePending entry = (.ok (), db) → Q { w with db }) :
    Leads cp op w₀ (At w₀ n R) (savePendingEntry entry) (fun _ => Q) :=
  quiet_bind deeds_quiet (calls_perform.mpr trivial) fun _ =>
    triple_store (fun w hw => .mk (hact w hw).1 trivial (hact w hw).2)
      (fun w hw _ db hrun => hpost w db hw hrun) fun _ _ _ _ _ => trivial

variable {authId : String}

theorem remove_pending_spec {R : Db → Prop} {Q : World → Prop}
    (hdrops : ∀ w, At w₀ n R w → Drops cp op w₀ w authId)
    (hpost : ∀ w db, At w₀ n R w → db.toTables =
      { w.db.toTables with pending := w.db.pending.filter (·.entry.authId ≠ authId) } →
      Q { w with db }) :
    Leads cp op w₀ (At w₀ n R) (removePendingEntry authId)
      (fun _ => Q) :=
  quiet_bind deeds_quiet (calls_perform.mpr trivial) fun _ => triple_store
    (fun w hw => .mk (hdrops w hw) trivial trivial)
    (fun w hw _ db hrun => hpost w db hw (Db.statement_ok hrun).1) fun _ _ _ _ _ => trivial

theorem remove_pending_does {β : Type} {R : Db → Prop} {k : Unit → ControlM β}
    (hdrops : ∀ w, At w₀ n R w → Drops cp op w₀ w authId)
    (hk : ∀ value, (k value).Calls Call.Plain) :
    Performs cp op w₀ (At w₀ n R) (removePendingEntry authId >>= k) :=
  (remove_pending_spec (Q := fun _ => True) hdrops fun _ _ _ _ => trivial).bind fun value =>
    plain_does (hk value) _

/-! ## Registration -/

section Register

variable {machineKey : MachineKey} {request : RegisterRequest} {db₁ : Db} {now : String}

/-- `register` decides on the database that the bootstrap left and at the time read then. -/
structure Registering (cp : ControlPlane) (op : Op) (w₀ : World) (machineKey : MachineKey)
    (request : RegisterRequest) (db₁ : Db) (now : String) : Prop where
  op : op = .register machineKey request
  world : db₁ = (cp.bootstrapped w₀).db
  now : now = cp.nowAt (cp.bootstrapped w₀)
  started : Started cp w₀.db db₁

theorem Registering.key_presented (h : Registering cp op w₀ machineKey request db₁ now)
    (hfollowup : request.followup = "") {auth : RegisterAuth} {key : PreAuthKey}
    (hauth : request.auth = some auth) (hvalid : cp.validKey auth now db₁ = some key) :
    KeyPresented cp op w₀ machineKey request key := by
  refine ⟨h.op, hfollowup, h.world ▸ h.started.toPrelude, auth, hauth, ?_⟩
  rw [← h.now, ← h.world]
  exact hvalid

theorem start_interactive_does (h : Registering cp op w₀ machineKey request db₁ now)
    (hn : w₀.env.position ≤ n) (hfollowup : request.followup = "")
    (hrow : ∀ row ∈ db₁.getNodeByNodeKey request.nodeKey,
      row.machineKey = machineKey ∧ row.machineAuthorized = false)
    (hpast : ¬(request.expiry ≠ "" && cp.ext.isPast request.expiry now) = true)
    (hfuture : ¬(request.expiry ≠ "" && cp.ext.isFuture request.expiry now) = true)
    (hnone : ∀ auth ∈ request.auth, cp.validKey auth now db₁ = none) :
    Performs cp op w₀ (At w₀ n (· = db₁)) (cp.startInteractive machineKey request now) := by
  have hstarts : op.Starts cp w₀ := by
    refine ⟨machineKey, request, h.op, hfollowup, ?_, ?_, ?_, ?_⟩
    · simpa only [Db.getNodeByNodeKey, h.started.nodes] using hrow
    · exact h.now ▸ Bool.eq_false_of_not_eq_true hpast
    · exact h.now ▸ Bool.eq_false_of_not_eq_true hfuture
    · exact h.now ▸ h.world ▸ hnone
  unfold startInteractive
  refine secret_bind deeds_quiet hn fun i hi => quiet_bind deeds_quiet
    (Calls.bind (calls_perform.mpr trivial) fun _ => calls_pure _) fun expiresAt => ?_
  refine (save_pending_spec (Q := fun _ => True) (fun w hw => ?_) fun _ _ _ _ => trivial).bind
    fun _ => triple_done
  exact ⟨.start h.op hi rfl rfl (hw.1 ▸ h.started.boot),
    .inr ⟨hstarts, hw.1 ▸ h.started.pending⟩⟩

theorem reauthorize_does {key : PreAuthKey}
    (hkey : KeyPresented cp op w₀ machineKey request key) (hnodes : db₁.nodes = w₀.db.nodes)
    (hrow : node ∈ db₁.nodes) (hnodeKey : node.nodeKey = request.nodeKey)
    (hmachine : node.machineKey = machineKey) (hnot : node.machineAuthorized = false) :
    Performs cp op w₀ (At w₀ n (· = db₁)) (cp.reauthorize node key) := by
  refine (save_node_does fun w hw => ?_).bind fun _ =>
    plain_does (Calls.bind (consume_key_plain key) fun _ => calls_pure _) _
  obtain ⟨rfl, -⟩ := hw
  exact ⟨.reauthorize hkey hrow hnodes hnodeKey hmachine hnot rfl,
    .kept hrow rfl rfl rfl ⟨rfl, .inl rfl⟩⟩

theorem valid_key_bind {β : Type} {auth : RegisterAuth} {k : Option PreAuthKey → ControlM β}
    (hk : Performs cp op w₀ (At w₀ n (· = db₁)) (k (cp.validKey auth now db₁))) :
    Performs cp op w₀ (At w₀ n (· = db₁)) (cp.validatedAuthKey auth now >>= k) := by
  refine triple_bind_read deeds_quiet (reads_validated_auth_key auth now)
    (validated_auth_key_quiet auth now) fun found => ?_
  refine Triple.assume (φ := cp.validKey auth now db₁ = found) (fun w hw => ?_) fun hfound => ?_
  · rw [← hw.1.1]
    exact hw.2
  · exact (hfound ▸ hk).pre fun _ hw => hw.1

theorem register_existing_does (h : Registering cp op w₀ machineKey request db₁ now)
    (hn : w₀.env.position ≤ n) (hfollowup : request.followup = "")
    (hfound : db₁.getNodeByNodeKey request.nodeKey = some node) :
    Performs cp op w₀ (At w₀ n (· = db₁)) (cp.registerExisting machineKey request now node) := by
  obtain ⟨hrow, hnodeKey⟩ := Db.get_node_by_node_key_eq_some.mp hfound
  have hread (w : World) (hw : At w₀ n (· = db₁) w) : Read w₀ node w := by
    obtain ⟨rfl, -⟩ := hw
    exact .of_prelude h.started.toPrelude hrow
  unfold registerExisting
  split
  · exact triple_done
  case isFalse hmachine =>
  split
  · exact (logout_node_does node true).pre hread
  case isFalse hpast =>
  split
  · exact triple_done
  case isFalse hfuture =>
  split
  · exact (relogin_does node request).pre hread
  case isFalse hnot =>
  have hown : ∀ row ∈ db₁.getNodeByNodeKey request.nodeKey,
      row.machineKey = machineKey ∧ row.machineAuthorized = false := by
    rw [hfound]
    rintro _ ⟨⟩
    exact ⟨not_not.mp hmachine, Bool.eq_false_of_not_eq_true hnot⟩
  have hinteractive := start_interactive_does h hn hfollowup hown hpast hfuture
  cases hauth : request.auth with
  | none => exact hinteractive (by simp [hauth])
  | some auth =>
    refine valid_key_bind ?_
    cases hvalid : cp.validKey auth now db₁ with
    | none => exact hinteractive (by rw [hauth]; rintro _ ⟨⟩; exact hvalid)
    | some key =>
      exact reauthorize_does (h.key_presented hfollowup hauth hvalid) h.started.nodes hrow hnodeKey
        (not_not.mp hmachine) (Bool.eq_false_of_not_eq_true hnot)

/-- Building a node and going on with it, in a state of which only the database matters. -/
theorem create_node_bind {β : Type} {k : Node → ControlM β} {userId : Nat}
    {tags : Option (List String)} {ephemeral : Bool} {R : Db → Prop} (hk : ∀ nodes ipv4 ipv6,
      Placed cp nodes (cp.newNode machineKey request userId tags ephemeral now ipv4 ipv6) →
      Performs cp op w₀ (fun w => R w.db ∧ w.db.nodes = nodes)
        (k (cp.newNode machineKey request userId tags ephemeral now ipv4 ipv6))) :
    Performs cp op w₀ (fun w => R w.db)
      (cp.createNodeFromRequest machineKey request userId tags ephemeral now >>= k) := by
  rw [create_node_allocates, bind_assoc]
  refine triple_bind_read deeds_quiet reads_list_nodes (calls_store trivial) fun nodes => ?_
  rw [bind_assoc]
  refine ((allocate_spec deeds_quiet _ _ fun db => R db ∧ db.nodes = nodes).weaken (fun _ hw => hw)
    (fun _ _ hw => hw) fun _ _ _ => trivial).bind fun pair => ?_
  refine Triple.assume (fun _ hw => hw.2) fun hallotted => ?_
  exact (hk nodes _ _ (.new rfl rfl hallotted rfl ⟨request.hostinfo, rfl⟩)).pre fun _ hw => hw.1

theorem register_with_key_does {key : PreAuthKey}
    (hkey : KeyPresented cp op w₀ machineKey request key) (hstarted : Started cp w₀.db db₁)
    (hnew : ∀ row ∈ db₁.nodes, row.nodeKey ≠ request.nodeKey) :
    Performs cp op w₀ (fun w => w.db = db₁) (cp.registerWithKey machineKey request now key) := by
  unfold registerWithKey
  dsimp only
  split
  · exact triple_failed_bind
  refine create_node_bind (R := (· = db₁)) fun nodes ipv4 ipv6 hplaced => ?_
  refine (admit_node_does fun w hw => ?_).bind fun _ =>
    plain_does (Calls.bind (consume_key_plain key) fun _ => calls_pure _) _
  obtain ⟨rfl, rfl⟩ := hw
  exact ⟨.enroll hkey hstarted.toConfigured hstarted.nodes hnew rfl, hplaced⟩

theorem register_new_does (h : Registering cp op w₀ machineKey request db₁ now)
    (hn : w₀.env.position ≤ n) (hfollowup : request.followup = "")
    (hfound : db₁.getNodeByNodeKey request.nodeKey = none) :
    Performs cp op w₀ (At w₀ n (· = db₁)) (cp.registerNew machineKey request now) := by
  have hinteractive := start_interactive_does h hn hfollowup (by simp [hfound])
  unfold registerNew optionalAuthKey
  cases hauth : request.auth with
  | none =>
    dsimp only
    change Performs cp op w₀ _ (if _ then _ else if _ then _ else _)
    split
    · exact triple_done
    case isFalse hpast =>
    split
    · exact triple_done
    case isFalse hfuture => exact hinteractive hpast hfuture (by simp [hauth])
  | some auth =>
    refine valid_key_bind ?_
    dsimp only
    cases hvalid : cp.validKey auth now db₁ with
    | none =>
      split
      · exact triple_done
      case isFalse hpast =>
      split
      · exact triple_done
      case isFalse hfuture =>
      exact hinteractive hpast hfuture (by rw [hauth]; rintro _ ⟨⟩; exact hvalid)
    | some key =>
      split
      · exact triple_done
      split
      · exact triple_done
      exact (register_with_key_does (h.key_presented hfollowup hauth hvalid) h.started
        (Db.get_node_by_node_key_eq_none.mp hfound)).pre fun _ hw => hw.1

/-! ### Followups -/

structure Removed (cp : ControlPlane) (db₀ db : Db) : Prop where
  nodes : db.nodes = db₀.nodes
  configured : Configured cp db
  last : Grounded cp db₀ → db.lastInsertRowid = db₀.lastInsertRowid

def Found (cp : ControlPlane) (db₀ : Db) (nodeKey : NodeKey) (found : Option Node) (db : Db) :
    Prop :=
  Removed cp db₀ db ∧ db.getNodeByNodeKey nodeKey = found

theorem complete_followup_does {entry : PendingRegistration} {userId : Nat}
    {tags : Option (List String)}
    (happroved : FollowupApproved cp op w₀ machineKey entry userId tags)
    (hstarted : Started cp w₀.db db₁) (hpending : w₀.db.pending ≠ [])
    (hdrops : ∀ w, At w₀ n (· = db₁) w → Drops cp op w₀ w entry.authId) :
    Performs cp op w₀ (At w₀ n (· = db₁))
      (cp.completeFollowup machineKey entry userId tags now) := by
  unfold completeFollowup
  refine (remove_pending_spec (Q := fun w => Removed cp w₀.db w.db) hdrops ?_).bind fun _ => ?_
  · intro w db hw htables
    rw [hw.1] at htables
    refine ⟨(congrArg Tables.nodes htables).trans hstarted.nodes, ?_, fun hgrounded => ?_⟩
    · have husers := congrArg Tables.users htables
      have hlogins := congrArg Tables.logins htables
      have hkeys := congrArg Tables.preAuthKeys htables
      exact hstarted.toConfigured.keep (by rw [husers]; exact List.Subset.refl _)
        (by rw [hlogins]; exact List.Subset.refl _) (by rw [hkeys]; exact List.Subset.refl _)
    rw [congrArg Tables.lastInsertRowid htables, hstarted.same (hgrounded.boot hpending)]
  refine triple_bind_read deeds_quiet (reads_get_node_by_node_key entry.nodeKey)
    (calls_store trivial) fun found => ?_
  dsimp only
  split
  case isTrue => exact triple_done
  case isFalse hretry =>
    refine create_node_bind (R := Found cp w₀.db entry.nodeKey found) fun nodes _ _ hplaced => ?_
    refine (admit_node_does fun w hw => ?_).bind fun _ => triple_done
    obtain ⟨⟨hremoved, hfound⟩, rfl⟩ := hw
    refine ⟨.complete happroved hremoved.configured hremoved.nodes hremoved.last
      (fun row hrow hkey hdone => ?_) rfl, hplaced⟩
    rw [Db.get_node_by_node_key_eq_some.mpr ⟨hrow, hkey⟩] at hfound
    exact hretry (by rw [← hfound]; simp [hdone])

theorem poll_followup_does (h : Registering cp op w₀ machineKey request db₁ now) :
    Performs cp op w₀ (At w₀ n (· = db₁)) (cp.pollFollowup machineKey request now) := by
  unfold pollFollowup
  cases hauth : authIdFromFollowup request.followup with
  | none => exact triple_done
  | some authId =>
    refine (get_pending_entry_spec deeds_quiet authId (· = db₁)).bind fun found => ?_
    cases found with
    | none => exact triple_done
    | some entry =>
      dsimp only
      split
      · exact triple_done
      case isFalse hmachine =>
      have hanswered (w : World)
          (hw : At w₀ n (fun db => db = db₁ ∧ db.getPending authId = some entry) w) :
          Drops cp op w₀ w authId :=
        .answered h.op hauth hw.1.2 (not_not.mp hmachine)
      split
      · exact remove_pending_does hanswered fun _ => calls_pure _
      case isFalse hlive =>
      cases hverdict : entry.verdict with
      | pending => exact triple_done
      | rejected => exact remove_pending_does hanswered fun _ => calls_pure _
      | approved userId tags =>
        refine Triple.assume (φ := db₁.getPending authId = some entry)
          (fun w hw => hw.1.1 ▸ hw.1.2) fun hentry => ?_
        have hbefore := (h.started.get_pending authId).symm.trans hentry
        obtain rfl := (Db.get_pending_eq_some.mp hentry).1
        refine (complete_followup_does
          ⟨⟨request, _, h.op, hauth, hbefore⟩, not_not.mp hmachine,
          hverdict, ?_⟩ h.started (Db.pending_ne_nil hbefore) fun w hw => ?_).pre
            fun _ hw => ⟨hw.1.1, hw.2⟩
        · rw [← h.now]
          exact Bool.eq_false_of_not_eq_true hlive
        · exact .answered h.op hauth (hw.1 ▸ hentry) (not_not.mp hmachine)

theorem register_at_does (h : Registering cp op w₀ machineKey request db₁ now)
    (hn : w₀.env.position ≤ n) :
    Performs cp op w₀ (At w₀ n (· = db₁)) (cp.registerAt machineKey request now) := by
  unfold registerAt
  split
  case isTrue => exact poll_followup_does h
  case isFalse hfollowup =>
    have hfollowup := not_not.mp hfollowup
    refine triple_bind_read deeds_quiet (reads_get_node_by_node_key request.nodeKey)
      (calls_store trivial) fun found => ?_
    refine Triple.assume (φ := db₁.getNodeByNodeKey request.nodeKey = found)
      (fun w hw => hw.1.1 ▸ hw.2) fun hfound => ?_
    cases found with
    | none => exact (register_new_does h hn hfollowup hfound).pre fun _ hw => hw.1
    | some node => exact (register_existing_does h hn hfollowup hfound).pre fun _ hw => hw.1

theorem register_body_does (machineKey : MachineKey) (request : RegisterRequest) :
    Performs cp (.register machineKey request) w₀ (· = w₀)
      (cp.registerBody machineKey request) := by
  rw [register_body_eq]
  refine bootstrap_spec.bind fun _ w hw => ?_
  obtain ⟨hstarted, hsince, rfl⟩ := hw
  -- The clock is read in the state that the bootstrap left.
  refine triple_bind_run (quiet_safe (now_quiet cp) deeds_quiet _) (now_run cp _) ?_ _ rfl
  refine (register_at_does ⟨rfl, rfl, rfl, hstarted⟩ (Nat.le_refl _)).pre fun w hw => ?_
  rw [hw]
  exact ⟨rfl, hsince.call (.env .now)⟩

/-- An error of the body of `register` becomes an answer. -/
theorem register_does (machineKey : MachineKey) (request : RegisterRequest) :
    Performs cp (.register machineKey request) w₀ (· = w₀) (cp.register machineKey request) := by
  unfold register
  refine ((register_body_does machineKey request).attempt).bind fun result => ?_
  cases result <;> exact triple_done

end Register

/-! ## Approval and rejection -/

theorem Grounded.users_ne_nil {db : Db} (h : Grounded cp db) (hpending : db.pending ≠ []) :
    db.users ≠ [] := by
  intro hnil
  have huser := (h.boot hpending).user
  rw [hnil] at huser
  cases huser

theorem Grounded.logins_ne_nil {db : Db} (h : Grounded cp db) (hpending : db.pending ≠ []) :
    db.logins ≠ [] := by
  intro hnil
  have hlogin := (h.boot hpending).login
  rw [hnil] at hlogin
  cases hlogin

theorem live_pending_spec (authId : String) (R : Db → Prop) :
    Leads cp op w₀ (At w₀ w₀.env.position R) (cp.livePendingEntry authId)
      (fun entry => At w₀ w₀.env.position fun db => R db ∧ db.getPending authId = some entry) := by
  refine time_bind deeds_quiet (Nat.le_refl _) fun i hi => ?_
  refine (get_pending_entry_spec deeds_quiet authId R).bind fun found => ?_
  cases found with
  | none => exact triple_failed
  | some entry =>
    dsimp only
    split
    case isTrue hpast =>
      exact Triple.bind (remove_pending_spec (Q := fun _ => True)
        (fun w hw => .expired hw.1.2 hi hw.2.le hpast) fun _ _ _ _ => trivial)
          fun _ => triple_failed
    case isFalse =>
      exact triple_pure fun w hw => ⟨hw.1, hw.2.mono (Nat.le_succ_of_le hi)⟩

theorem create_user_spec {user : User} {rows : List PendingRow} (hrows : rows ≠ []) :
    Leads cp op w₀ (At w₀ n (·.pending = rows)) (store (.createUser user))
      (fun stored => At w₀ n fun db => db.pending = rows ∧ stored ∈ db.users ∧
        stored.loginName = user.loginName) := by
  refine triple_store (fun w hw => .mk (.inr fun hgrounded => hgrounded.users_ne_nil ?_) trivial
    trivial) ?_ fun _ _ _ _ _ => trivial
  · rw [hw.1]
    exact hrows
  · intro w hw stored db hrun
    obtain ⟨htables, rfl⟩ := Db.statement_ok hrun
    refine ⟨⟨(congrArg Tables.pending htables).trans hw.1, ?_, rfl⟩, hw.2.env, hw.2.le⟩
    rw [congrArg Tables.users htables]
    simp

theorem reads_get_user_by_login_name (loginName : String) :
    Reads handler (store (.getUserByLoginName loginName)) fun w =>
      w.db.getUserByLoginName loginName :=
  reads_store (c := .getUserByLoginName loginName) (f := fun db => db.getUserByLoginName loginName)
    fun _ => rfl

theorem resolve_user_spec (userName : String) {rows : List PendingRow} (hrows : rows ≠ []) :
    Leads cp op w₀ (At w₀ n (·.pending = rows)) (cp.resolveUserId userName)
      (fun id => At w₀ n fun db => db.pending = rows ∧
        ∃ user ∈ db.users, user.id = id ∧ user.loginName = userName) := by
  unfold resolveUserId
  refine triple_bind_read deeds_quiet (reads_get_user_by_login_name userName) (calls_store trivial)
    fun found => ?_
  cases found with
  | some user =>
    refine triple_pure fun w hw => ⟨⟨hw.1.1, user, ?_⟩, hw.1.2⟩
    exact ⟨List.mem_of_find?_eq_some hw.2, rfl, by simpa using List.find?_some hw.2⟩
  | none =>
    refine Triple.pre (P := At w₀ n (·.pending = rows)) ?_ fun w hw => hw.1
    refine quiet_bind deeds_quiet (now_quiet cp) fun now => ?_
    refine (create_user_spec hrows).bind fun stored => triple_pure fun w hw => ?_
    exact ⟨⟨hw.1.1, stored, hw.1.2.1, rfl, hw.1.2.2⟩, hw.2⟩

def ApprovedFor (authId userName : String) (w : World) : Prop :=
  ∃ entry user, w.db.getPending authId = some entry ∧
    entry.verdict = .approved user.id (approvedTags entry) ∧ user ∈ w.db.users ∧
    user.loginName = userName

theorem approve_pending_spec {userName : String} (hop : op.Approves w₀ authId userName) :
    Leads cp op w₀ (At w₀ w₀.env.position fun _ => True)
      (cp.approvePending authId userName) (fun _ => ApprovedFor authId userName) := by
  unfold approvePending
  refine (live_pending_spec authId _).bind fun entry w hw => ?_
  have hrows := Db.pending_ne_nil hw.1.2
  refine (resolve_user_spec userName hrows).bind (fun userId => ?_) w ⟨rfl, hw.2⟩
  dsimp only
  split
  · exact triple_failed_bind
  case isFalse hallowed =>
  refine save_pending_spec (fun w' hw' => ?_) fun w' db hw' hrun => ?_
  · obtain ⟨hpending, user, huser, rfl, hname⟩ := hw'.1
    have hbefore : w'.db.getPending authId = some entry := by
      unfold Db.getPending
      rw [hpending]
      exact hw.1.2
    exact ⟨.approve hop hbefore huser hname (not_not.mp hallowed) rfl,
      .inl (PendingAct.over hbefore rfl)⟩
  · obtain ⟨-, user, huser, rfl, hname⟩ := hw'.1
    have hstored := Db.get_pending_save hrun
    rw [show entry.authId = authId from (Db.get_pending_eq_some.mp hw.1.2).1] at hstored
    exact ⟨_, user, hstored, rfl, Db.users_save_pending hrun ▸ huser, hname⟩

theorem reject_pending_spec (hop : op = .rejectPending authId) :
    Leads cp op w₀ (At w₀ w₀.env.position fun _ => True) (cp.rejectPending authId)
      (fun _ w => ∃ entry, w.db.getPending authId = some entry ∧ entry.verdict = .rejected) := by
  refine (live_pending_spec authId _).bind fun entry => save_pending_spec (fun w hw => ?_)
    fun w db hw hrun => ?_
  · exact ⟨.reject hop hw.1.2 rfl, .inl (PendingAct.over hw.1.2 rfl)⟩
  · have hstored := Db.get_pending_save hrun
    rw [show entry.authId = authId from (Db.get_pending_eq_some.mp hw.1.2).1] at hstored
    exact ⟨_, hstored, rfl⟩

/-! ## Approval through a provider -/

theorem pending_info_spec (authId : String) (P : World → Prop)
    (hP : ∀ w, P w → Since w₀ w₀.env.position w) :
    Leads cp op w₀ P (cp.pendingInfo authId)
      (fun found => At w₀ w₀.env.position fun db => found.isSome → db.pending ≠ []) := by
  refine Triple.pre (P := At w₀ w₀.env.position fun _ => True) ?_ fun w hw => ⟨trivial, hP w hw⟩
  refine time_bind deeds_quiet (Nat.le_refl _) fun i hi => ?_
  refine (get_pending_entry_spec deeds_quiet authId _).bind fun found => ?_
  have hlater {w : World} (hw : Since w₀ (i + 1) w) : Since w₀ w₀.env.position w :=
    hw.mono (Nat.le_succ_of_le hi)
  cases found with
  | none => exact triple_pure fun w hw => ⟨fun h => absurd h Bool.false_ne_true, hlater hw.2⟩
  | some entry =>
    dsimp only
    split
    case isTrue hpast =>
      refine Triple.bind (remove_pending_spec (Q := Since w₀ w₀.env.position)
        (fun w hw => .expired hw.1.2 hi hw.2.le hpast) fun w db hw _ => ?_)
          fun _ => triple_pure fun w hw => ⟨fun h => absurd h Bool.false_ne_true, hw⟩
      exact ⟨(hlater hw.2).env, (hlater hw.2).le⟩
    case isFalse =>
      exact triple_pure fun w hw => ⟨fun _ => Db.pending_ne_nil hw.1.2, hlater hw.2⟩

def Call.Inner : Call → Prop
  | .env _ => False
  | _ => True

theorem Call.Inner.env_eq {c : Call} (hc : c.Inner) (w : World) : (handler c w).2.env = w.env := by
  cases c with
  | store c => rfl
  | memory c => cases c <;> rfl
  | env c => exact hc.elim

theorem pending_info_env (authId : String) (w : World) :
    (exec (cp.pendingInfo authId) w).2.env = w.tick.env := by
  rw [pendingInfo, exec, run_bind_ok handler (now_run cp w)]
  refine Calls.run_eq (P := Call.Inner) ?_ World.env (fun c hc w => hc.env_eq w) w.tick
  refine Calls.bind (Calls.bind (calls_store trivial) fun found => ?_) fun found => ?_
  · cases found with
    | none => exact calls_pure _
    | some entry => exact Calls.bind (calls_perform.mpr trivial) fun _ => calls_pure _
  · cases found with
    | none => exact calls_pure _
    | some entry =>
      dsimp only
      split
      · exact Calls.bind (Calls.bind (calls_perform.mpr trivial) fun _ => calls_store trivial)
          fun _ => calls_pure _
      · exact calls_pure _

section Provider

variable {rows : List PendingRow}

theorem store_pending_spec (c : StoreCall) (hwrites : c.writes ≠ some .pending)
    (hguard : ∀ w, w.db.pending = rows → Deeds cp op w₀ w (.store c)) :
    Leads cp op w₀ (At w₀ n (·.pending = rows)) (store c)
      (fun _ => At w₀ n (·.pending = rows)) := by
  refine triple_store (fun w hw => hguard w hw.1) ?_ fun _ _ _ _ _ => trivial
  intro w hw result db hrun
  have hsame := (c.same_but w.db).pending hwrites
  rw [hrun] at hsame
  exact ⟨hsame.trans hw.1, hw.2.env, hw.2.le⟩

theorem oidc_user_spec (profile : OidcProfile) (now : String) (hrows : rows ≠ []) :
    Leads cp op w₀ (At w₀ n (·.pending = rows)) (oidcUser profile now)
      (fun _ => At w₀ n (·.pending = rows)) := by
  unfold oidcUser
  refine quiet_bind deeds_quiet (calls_store trivial) fun found => ?_
  cases found with
  | some user =>
    dsimp only
    split
    · exact (store_pending_spec (.updateUserDisplayName _ _) (by simp [StoreCall.writes])
        fun _ _ => .mk trivial trivial trivial).bind fun _ => triple_pure fun _ hw => hw
    · exact triple_pure fun _ hw => hw
  | none =>
    refine (store_pending_spec (.createUser _) (by simp [StoreCall.writes])
      fun w hw => .mk (.inr fun hgrounded => ?_) trivial trivial).bind fun _ =>
        triple_pure fun _ hw => hw
    exact hgrounded.users_ne_nil (hw ▸ hrows)

theorem ensure_oidc_login_spec (profile : OidcProfile) (userId : Nat) (now : String)
    (hrows : rows ≠ []) :
    Leads cp op w₀ (At w₀ n (·.pending = rows)) (ensureOidcLogin profile userId now)
      (fun _ => At w₀ n (·.pending = rows)) := by
  unfold ensureOidcLogin
  refine quiet_bind deeds_quiet (calls_store trivial) fun found => ?_
  cases found with
  | some login => exact triple_pure fun _ hw => hw
  | none =>
    refine (store_pending_spec (.createLogin _) (by simp [StoreCall.writes])
      fun w hw => .mk (.inr fun hgrounded => ?_) trivial trivial).bind fun _ =>
        triple_pure fun _ hw => hw
    exact hgrounded.logins_ne_nil (hw ▸ hrows)

theorem upsert_oidc_user_spec (profile : OidcProfile) (hrows : rows ≠ []) :
    Leads cp op w₀ (At w₀ n (·.pending = rows)) (cp.upsertOidcUser profile)
      (fun _ => At w₀ n (·.pending = rows)) :=
  quiet_bind deeds_quiet (now_quiet cp) fun now =>
    (oidc_user_spec profile now hrows).bind fun userId =>
      (ensure_oidc_login_spec profile userId now hrows).bind fun _ => triple_pure fun _ hw => hw

end Provider

theorem approve_for_does {profile : OidcProfile} (hop : op.Approves w₀ authId profile.email) :
    Performs cp op w₀ (At w₀ w₀.env.position (·.pending ≠ [])) (cp.approveFor authId profile) := by
  intro w hw
  refine Triple.bind (upsert_oidc_user_spec profile hw.1).attempt (fun result => ?_) w ⟨rfl, hw.2⟩
  cases result with
  | error error => exact triple_done
  | ok _ =>
    refine ((approve_pending_spec hop).attempt.pre fun w hw => ⟨trivial, hw.2⟩).bind
      fun approved => ?_
    cases approved <;> exact triple_done

theorem complete_flow_does {flow : OidcFlow}
    (hsince : Since w₀ w₀.env.position w) (hposition : w.env.position = w₀.env.position + 1)
    (hop : ∀ profile, w₀.env.exchanges (w₀.env.position + 2) = .verified profile →
      op.Approves w₀ flow.authId profile.email) :
    Performs cp op w₀ (· = w) (cp.completeFlow flow) := by
  unfold completeFlow
  have hpage : Leads cp op w₀ (· = w) (cp.pendingInfo flow.authId)
      (fun found => At w₀ w₀.env.position fun db => found.isSome → db.pending ≠ []) :=
    pending_info_spec flow.authId (· = w) fun _ hw => hw ▸ hsince
  have hinfo := hpage.run_state rfl
  refine hinfo.attempt.bind fun result => ?_
  cases result with
  | error error => exact triple_done
  | ok found =>
    cases found with
    | none => exact triple_done
    | some entry =>
      intro w' hw'
      obtain ⟨hat, hstate⟩ : _ ∧ w' = _ := hw'
      have henv : w'.env = w.tick.env := by
        rw [hstate]
        exact pending_info_env flow.authId w
      have hanswer : (environment .oidcExchange).run handler w' =
          (.ok (w₀.env.exchanges (w₀.env.position + 2)), w'.tick) := by
        change (Except.ok (w'.env.exchanges w'.env.position), w'.tick) = _
        rw [henv, World.tick, hsince.env]
        simp [hposition]
      have hquiet : (environment .oidcExchange).Calls Call.Quiet := calls_perform.mpr trivial
      refine triple_bind_run (quiet_safe hquiet deeds_quiet w') hanswer ?_ w' rfl
      cases hexchange : w₀.env.exchanges (w₀.env.position + 2) with
      | invalid => exact triple_done
      | taskFailed => exact triple_done
      | verified profile =>
        refine (approve_for_does (hop profile hexchange)).pre fun w'' hw'' => ?_
        rw [hw'']
        exact ⟨hat.1 rfl, hat.2.call (.env .oidcExchange)⟩

theorem handle_oidc_callback_does (params : BTreeMap String String) :
    Performs cp (.handleOidcCallback params) w₀ (· = w₀) (cp.handleOidcCallback params) := by
  unfold handleOidcCallback
  split
  · exact triple_done
  split
  · exact triple_done
  cases hstate : params["state"]? with
  | none => exact triple_done
  | some state =>
    cases params["code"]? with
    | none => exact triple_done
    | some code =>
      have hnow : (environment .now).run handler w₀ =
          (.ok (w₀.env.clock w₀.env.position), w₀.tick) := rfl
      have hnowQuiet : (environment .now).Calls Call.Quiet := calls_perform.mpr trivial
      refine triple_bind_run (quiet_safe hnowQuiet deeds_quiet w₀) hnow ?_
      have htake : (memory (.flowTake state (w₀.env.clock w₀.env.position))).run handler
          w₀.tick = (.ok (w₀.flows.take state (w₀.env.clock w₀.env.position)).1,
            { w₀.tick with
              flows := (w₀.flows.take state (w₀.env.clock w₀.env.position)).2 }) := rfl
      have htakeQuiet : (memory (.flowTake state (w₀.env.clock w₀.env.position))).Calls
          Call.Quiet := calls_perform.mpr trivial
      refine triple_bind_run (quiet_safe htakeQuiet deeds_quiet _) htake ?_
      cases hflow : (w₀.flows.take state (w₀.env.clock w₀.env.position)).1 with
      | none => exact triple_done
      | some flow =>
        refine complete_flow_does ⟨rfl, Nat.le_succ _⟩ rfl fun profile hprofile => ?_
        exact ⟨state, flow, profile, hstate, hflow, rfl, hprofile, rfl⟩

theorem start_flow_quiet (authorizationUrl : (state nonce : String) → Option String)
    (authId : String) : (startFlow authorizationUrl authId).Calls Call.Quiet := by
  refine Calls.bind (calls_perform.mpr trivial) fun now =>
    Calls.bind (calls_perform.mpr trivial) fun state =>
      Calls.bind (calls_perform.mpr trivial) fun nonce =>
        Calls.bind (calls_perform.mpr trivial) fun _ => ?_
  cases authorizationUrl state nonce <;> exact calls_pure _

theorem handle_register_page_does (authId : String) :
    Performs cp op w₀ (· = w₀) (cp.handleRegisterPage authId) := by
  refine (pending_info_spec authId (· = w₀) fun _ hw => hw ▸ .refl w₀).attempt.bind fun result => ?_
  cases result with
  | error error => exact triple_done
  | ok found =>
    cases found with
    | none => exact triple_done
    | some entry =>
      cases cp.ext.oidc with
      | none => exact triple_done
      | some authorizationUrl =>
        exact quiet_does (start_flow_quiet authorizationUrl authId) _

/-! ## The other operations -/

theorem logout_does (machineKey : MachineKey) (nodeKey : NodeKey) :
    Performs cp op w₀ (· = w₀) (cp.logout machineKey nodeKey) := by
  unfold logout
  refine triple_bind_read deeds_quiet (reads_get_node_by_node_key nodeKey) (calls_store trivial)
    fun found => ?_
  cases hfound : found.filter (·.machineKey = machineKey) with
  | none => exact triple_failed
  | some node =>
    refine (logout_node_does node false).pre fun w hw => ?_
    rw [Option.filter_eq_some_iff] at hfound
    exact .of_eq hw.1 (Db.get_node_by_node_key_eq_some.mp (hw.2.trans hfound.1)).1

theorem create_pre_auth_key_does (keyPrefix : String) (reusable ephemeral : Bool)
    (expiration : Option String) (tags : Option (List String)) :
    Performs cp (.createPreAuthKey keyPrefix reusable ephemeral expiration tags) w₀ (· = w₀)
      (cp.createPreAuthKey keyPrefix reusable ephemeral expiration tags) := by
  unfold createPreAuthKey
  refine (ensure_default_user_spec.pre fun w hw => hw ▸ Prelude.refl cp w.db).bind fun _ => ?_
  dsimp only
  split
  · exact triple_failed_bind
  split
  · exact triple_failed_bind
  case isFalse hallowed =>
  have hquiet {α β : Type} {p : ControlM α} {k : α → ControlM β} (hp : p.Calls Call.Quiet)
      (hk : ∀ value, Performs cp (.createPreAuthKey keyPrefix reusable ephemeral expiration tags) w₀
        (fun _ => True) (k value)) :=
    (quiet_does hp fun _ => True).bind hk
  refine Triple.pre (P := fun _ => True) ?_ fun _ _ => trivial
  refine hquiet (calls_perform.mpr trivial) fun secret => hquiet (calls_perform.mpr trivial)
    fun salt => hquiet (now_quiet cp) fun now => ?_
  refine Triple.bind (M := fun _ _ => True) (triple_store (fun _ _ => ?_)
    (fun _ _ _ _ _ => trivial) fun _ _ _ _ _ => trivial) fun _ => triple_done
  exact .mk (.create rfl (not_not.mp hallowed)) trivial trivial

theorem route_target_spec (nodeKey : NodeKey) (route : String) :
    Leads cp op w₀ (· = w₀) (routeTarget nodeKey route) (fun target => Read w₀ target.1) := by
  unfold routeTarget
  cases canonicalRoute route with
  | none => exact triple_failed
  | some canonical =>
    refine triple_bind_read deeds_quiet (reads_get_node_by_node_key nodeKey)
      (calls_store trivial) fun found => ?_
    cases found with
    | none => exact triple_failed
    | some node =>
      exact triple_pure fun w hw => .of_eq hw.1 (Db.get_node_by_node_key_eq_some.mp hw.2).1

theorem edit_routes_does (node : Node) (approvedRoutes : List String) :
    Performs cp op w₀ (Read w₀ node) (admitNode { node with approvedRoutes }) :=
  admit_node_does fun _ hw => hw.edit ⟨⟨rfl, rfl, rfl, rfl⟩, id, rfl, .kept rfl rfl⟩
    ⟨rfl, rfl, rfl, rfl, .inl rfl⟩

theorem approve_route_does (nodeKey : NodeKey) (route : String) :
    Performs cp op w₀ (· = w₀) (approveRoute nodeKey route) := by
  refine (route_target_spec nodeKey route).bind fun target => ?_
  dsimp only
  split
  · exact triple_done
  · exact edit_routes_does _ _

theorem disapprove_route_does (nodeKey : NodeKey) (route : String) :
    Performs cp op w₀ (· = w₀) (disapproveRoute nodeKey route) := by
  refine (route_target_spec nodeKey route).bind fun target => ?_
  dsimp only
  split
  · exact triple_done
  · exact edit_routes_does _ _

theorem reap_sessions_calls : reapSessions.Calls Call.OnSessions := by
  have hpublish (event : ChangeEvent) : (publishChange event).Calls Call.OnSessions :=
    calls_perform.mpr trivial
  refine Calls.bind (calls_perform.mpr trivial) fun now =>
    Calls.bind (calls_perform.mpr trivial) fun events =>
      Calls.bind (Calls.forM fun event => ?_) fun _ => calls_pure _
  cases event with
  | online id => exact calls_pure _
  | offline id => exact hpublish _
  | ephemeralExpired id =>
    refine Calls.bind (calls_perform.mpr trivial) fun found => ?_
    dsimp only
    split
    · exact Calls.bind (calls_perform.mpr trivial) fun _ => hpublish _
    · exact hpublish _
    · exact hpublish _

theorem observe_owner (before : Node) (request : MapRequest) (now : String) :
    (observeRequest before request now).userId = before.userId ∧
      (observeRequest before request now).tags = before.tags ∧
      (observeRequest before request now).machineAuthorized = before.machineAuthorized ∧
      (observeRequest before request now).ephemeral = before.ephemeral := by
  unfold observeRequest
  dsimp only
  split
  · exact ⟨rfl, rfl, rfl, rfl⟩
  · cases request.hostinfo <;> exact ⟨rfl, rfl, rfl, rfl⟩

theorem Retagged.congr {row row' : Node} (h : Retagged cp w row node)
    (howner : row'.userId = row.userId) (htags : row'.tags = row.tags) :
    Retagged cp w row' node := by
  have hlogin : w.ownerLogin row' = w.ownerLogin row := by
    unfold World.ownerLogin
    rw [howner]
  cases h with
  | kept htags' howner' => exact .kept (htags'.trans htags.symm) (howner'.trans howner.symm)
  | dropped hsome htags' howner' =>
    exact .dropped (howner ▸ hsome) htags' (howner'.trans howner.symm)
  | named hne hallowed htags' howner' => exact .named hne (hlogin ▸ hallowed) htags' howner'

theorem map_row_edit {before : Node} {request : MapRequest}
    (h : cp.mapRow w before request = some node) : OwnEdit cp w before node := by
  obtain ⟨howner, htags, hauthorized, hephemeral⟩ := observe_owner before request (cp.nowAt w)
  have hretagged : Retagged cp w (observeRequest before request (cp.nowAt w)) node ∧
      node.machineAuthorized = (observeRequest before request (cp.nowAt w)).machineAuthorized ∧
      node.ephemeral = (observeRequest before request (cp.nowAt w)).ephemeral := by
    unfold mapRow mapTags at h
    split at h
    · exact retag_retagged h
    · cases h
      exact ⟨.kept rfl rfl, rfl, rfl⟩
  refine ⟨map_row_same_row h, fun hnode => ?_, hretagged.2.2.trans hephemeral,
    hretagged.1.congr howner.symm htags.symm⟩
  rw [← hauthorized, ← hretagged.2.1]
  exact hnode

theorem handle_map_does (machineKey : MachineKey) (request : MapRequest) :
    Performs cp (.handleMap machineKey request) w₀ (· = w₀) (cp.handleMap machineKey request) := by
  unfold handleMap
  refine Triple.bind (M := fun _ _ => True) ?_ fun node =>
    on_sessions_does rfl ((answer_map_request_off_tables node request).mono
      fun _ hc => hc.on_sessions) _
  refine (record_map_request_spec deeds_quiet fun node hof w hdb => ?_).weaken (fun _ h => h)
    (fun _ _ _ => trivial) fun _ _ _ => trivial
  obtain ⟨before, hbefore, -, hrow⟩ := hof
  have hmem := (Db.get_node_by_node_key_eq_some.mp hbefore).1
  exact .mk (.edit hmem (hdb ▸ hmem) (map_row_edit hrow))
    ((map_row_placing hrow).placed (hdb ▸ hmem)) trivial

theorem ssh_does (hop : op.isSsh = true) : Performs cp op w₀ (· = w₀) (op.program cp) := by
  have hssh : DoesSsh cp op w₀ (op.program cp) := Op.does_ssh hop
  refine (hssh.guard fun _ _ hc => hc.1.deeds hop).pre ?_
  rintro _ rfl
  exact ⟨rfl, .refl _⟩

theorem Op.deeds (op : Op) : Performs cp op w₀ (· = w₀) (op.program cp) := by
  have hstart (w : World) (hw : w = w₀) : At w₀ w₀.env.position (fun _ => True) w :=
    ⟨trivial, hw ▸ .refl w₀⟩
  have hdone {α : Type} {p : ControlM α} (hp : Performs cp op w₀ (· = w₀) p) :
      Performs cp op w₀ (· = w₀) (p >>= fun _ => pure ()) :=
    hp.bind fun _ => triple_done
  cases op with
  | register machineKey request => exact hdone (register_does machineKey request)
  | approvePending authId userName =>
    have hop : (Op.approvePending authId userName).Approves w₀ authId userName := ⟨rfl, rfl⟩
    exact (approve_pending_spec hop).weaken hstart (fun _ _ _ => trivial) fun _ _ h => h
  | rejectPending authId =>
    exact (reject_pending_spec rfl).weaken hstart (fun _ _ _ => trivial) fun _ _ h => h
  | logout machineKey nodeKey => exact hdone (logout_does machineKey nodeKey)
  | handleMap machineKey request => exact hdone (handle_map_does machineKey request)
  | closeSession sessionId => exact on_sessions_does rfl ((close_session_off_tables sessionId).mono
      fun _ hc => hc.on_sessions) _
  | reapSessions => exact hdone (on_sessions_does rfl reap_sessions_calls _)
  | createPreAuthKey keyPrefix reusable ephemeral expiration tags =>
    exact hdone (create_pre_auth_key_does keyPrefix reusable ephemeral expiration tags)
  | revokePreAuthKey keyPrefix =>
    exact plain_does (calls_store (c := .revokePreAuthKey _) trivial) _
  | approveRoute nodeKey route => exact approve_route_does nodeKey route
  | disapproveRoute nodeKey route => exact disapprove_route_does nodeKey route
  | handleRegisterPage authId => exact hdone (handle_register_page_does authId)
  | handleOidcCallback params => exact hdone (handle_oidc_callback_does params)
  | handleSshAction | approveSsh | rejectSsh | sshAuthInfo => exact ssh_does rfl

theorem Op.keeps_world {op : Op} {I : World → Prop}
    (hcall : ∀ w' c, I w' → Acts cp op w w' c → I (handler c w').2) (hw : I w) : I (op.exec cp w) :=
  op.deeds.invariant (fun w' c hw' hc => hcall w' c hw' hc.acts) rfl hw

theorem Op.keeps_ssh {op : Op} {I : World → Prop}
    (hcall : ∀ w' c, I w' → SshActs cp op w w' c → I (handler c w').2) (h : I w) :
    I (op.exec cp w) := by
  cases hssh : op.isSsh with
  | false =>
    exact op.deeds.invariant (fun w' c hw' hc => hcall w' c hw' (hc.ssh hssh).ssh_acts) rfl h
  | true =>
    exact (Op.does_ssh hssh).invariant (fun w' c hw' hc => hcall w' c hw' hc.2) ⟨rfl, .refl w⟩ h

/-- Only the operations on SSH approvals change them, and only map requests, their ends and the
reaper change the sessions. -/
theorem operations_confined (cp : ControlPlane) (op : Op) (w : World) :
    (op.isSsh = true ∨ (op.exec cp w).db.sshAuths = w.db.sshAuths) ∧
      (op.isSession = true ∨ (op.exec cp w).sessions = w.sessions) := by
  constructor
  · refine (Bool.eq_false_or_eq_true op.isSsh).imp_right fun hssh => ?_
    refine op.deeds.invariant (I := fun w' => w'.db.sshAuths = w.db.sshAuths)
      (fun w' c h hc => ((c.same_but w').sshAuths fun hwrites => ?_).trans h) rfl rfl
    obtain ⟨c, rfl⟩ := Call.store_of_writes hwrites
    have hoff := hc.ssh hssh
    cases c <;> first | exact hoff | cases hwrites
  · refine (Bool.eq_false_or_eq_true op.isSession).imp_right fun hsession => ?_
    exact op.deeds.invariant (I := fun w' => w'.sessions = w.sessions)
      (fun w' c h hc => ((hc.sessions hsession).sessions_eq w').trans h) rfl rfl

/-! ## The keys of node rows -/

/-- A followup of an approved registration whose node key has a row, other than a row that is
already authorized for the same machine. -/
def Completes (db : Db) (machineKey : MachineKey) (request : RegisterRequest) (row : Node) : Prop :=
  ∃ authId entry userId tags, authIdFromFollowup request.followup = some authId ∧
    db.getPending authId = some entry ∧ entry.machineKey = machineKey ∧
    entry.verdict = .approved userId tags ∧ row ∈ db.nodes ∧ row.nodeKey = entry.nodeKey ∧
    ¬(row.machineKey = machineKey ∧ row.machineAuthorized = true)

def Op.TakesOver (db : Db) : Op → Node → Node → Prop
  | .register machineKey request, row, node =>
    node.machineKey = machineKey ∧ Completes db machineKey request row
  | _, _, _ => False

/-- A node is written in one of three ways, in an operation that started on `db₀`. -/
inductive NodeWrite (cp : ControlPlane) (Takes : Node → Node → Prop) (db₀ db : Db) (node : Node) :
    Prop where
  | rewrite {row : Node} (hrow : row ∈ db.nodes) (hsame : SameRow node row)
  | create (hnodes : db.nodes = db₀.nodes) (hnew : ∀ row ∈ db.nodes, row.nodeKey ≠ node.nodeKey)
      (hid : node.id = 0) (hstable : node.stableId = "")
  | takeover {row : Node} (hrow : row ∈ db.nodes) (hkey : row.nodeKey = node.nodeKey)
      (htakes : Takes row node) (hid : node.id = 0) (hstable : node.stableId = "")
      (hlast : Grounded cp db₀ → db.lastInsertRowid = db₀.lastInsertRowid)

/-- The calls that an operation may make when it started on `db₀` and may take over rows as `Takes`
says. -/
def Allowed (cp : ControlPlane) (Takes : Node → Node → Prop) (db₀ : Db) (w : World) : Call → Prop
  | .store (.upsertNode node) => NodeWrite cp Takes db₀ w.db node
  | .store (.createUser user) =>
    user.id = cp.config.userId ∨ (Grounded cp w.db → w.db.users ≠ [])
  | .store (.createLogin login) =>
    login.id = cp.config.loginId ∨ (Grounded cp w.db → w.db.logins ≠ [])
  | .store (.savePending _) => cp.HasIds → Grounded cp w.db → Bootstrapped cp w.db
  | _ => True

theorem NodeAct.node_write (h : NodeAct cp op w₀ w node) :
    NodeWrite cp (op.TakesOver w₀.db) w₀.db w.db node := by
  cases h with
  | edit _ hrow hedit => exact .rewrite hrow hedit.same
  | reauthorize _ hrow _ _ _ _ hnode =>
    subst hnode
    exact .rewrite hrow ⟨rfl, rfl, rfl, rfl⟩
  | enroll _ _ hnodes hnew hnode =>
    subst hnode
    exact .create hnodes hnew rfl rfl
  | @complete machineKey entry userId tags now ipv4 ipv6 happroved _ hnodes hlast hretry hnode =>
    subst hnode
    obtain ⟨request, authId, rfl, hauth, hentry⟩ := happroved.op
    -- The followup writes over the row of its node key, or there is none.
    by_cases hrow : ∃ row ∈ w.db.nodes, row.nodeKey = entry.nodeKey
    · obtain ⟨row, hrow, hkey⟩ := hrow
      refine .takeover hrow hkey ⟨rfl, ?_⟩ rfl rfl hlast
      exact ⟨authId, entry, userId, tags, hauth, hentry, happroved.machine, happroved.verdict,
        hnodes ▸ hrow, hkey, hretry row hrow hkey⟩
    · exact .create hnodes (fun row hmem hkey => hrow ⟨row, hmem, hkey⟩) rfl rfl

theorem PendingAct.boot {entry : PendingRegistration} (h : PendingAct cp op w₀ w entry)
    (hids : cp.HasIds) (hgrounded : Grounded cp w.db) : Bootstrapped cp w.db := by
  cases h with
  | start _ _ _ _ hboot => exact hboot hids
  | approve _ hbefore _ _ _ _ => exact hgrounded.boot (Db.pending_ne_nil hbefore)
  | reject _ hbefore _ => exact hgrounded.boot (Db.pending_ne_nil hbefore)

theorem Acts.allowed {c : Call} (h : Acts cp op w₀ w c) :
    Allowed cp (op.TakesOver w₀.db) w₀.db w c := by
  cases c with
  | memory c => trivial
  | env c => trivial
  | store c =>
    cases c with
    | upsertNode node => exact NodeAct.node_write h
    | createUser user => exact h
    | createLogin login => exact h
    | savePending entry => exact PendingAct.boot h
    | _ => trivial

theorem Op.invariant {op : Op} {I : Db → Prop}
    (hcall : ∀ w' c, I w'.db → Allowed cp (op.TakesOver w.db) w.db w' c → I (handler c w').2.db)
    (hw : I w.db) : I (op.exec cp w).db :=
  Op.keeps_world (I := fun w => I w.db) (fun w' c hw' hc => hcall w' c hw' hc.allowed) hw

end Crabscale.Control
