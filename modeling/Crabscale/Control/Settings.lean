import Crabscale.Control.Convergence

/-!
# What a client holds besides its peers

A client keeps the last packet filters, SSH policy, DNS configuration and user profiles it was sent.
All depend on the whole node table, but an update only carries filters and SSH policy after a policy
change and DNS after a DNS change, and profiles are only in the first frame. `settings_current`: as
long as every batch carries what depends on something that changed, the client is up to date.
-/

namespace Crabscale.Control

open Rust Proto Policy ControlPlane

/-- The fields of a map that are not about peers. -/
structure Settings where
  packetFilter : Option (List FilterRule)
  packetFilters : Option (BTreeMap String (List FilterRule))
  sshPolicy : Option SshPolicy
  dns : Option DnsConfig
  userProfiles : List UserProfile

namespace Settings

def ofMap (map : MapResponse) : Settings where
  packetFilter := map.packetFilter
  packetFilters := map.packetFilters
  sshPolicy := map.sshPolicy
  dns := map.dns
  userProfiles := map.userProfiles

/-- Keep the last value sent of each field. -/
def receive (held : Settings) (response : MapResponse) : Settings where
  packetFilter := response.packetFilter.or held.packetFilter
  packetFilters := response.packetFilters.or held.packetFilters
  sshPolicy := response.sshPolicy.or held.sshPolicy
  dns := response.dns.or held.dns
  userProfiles := if response.userProfiles = [] then held.userProfiles else response.userProfiles

def receiveUpdate (held : Settings) : Option MapResponse → Settings
  | none => held
  | some response => held.receive response

theorem receive_update_non_empty (held : Settings) (response : MapResponse) :
    held.receiveUpdate (ControlPlane.nonEmpty response) = held.receive response := by
  unfold nonEmpty
  split
  case isTrue hempty => rw [hempty]; rfl
  case isFalse => rfl

end Settings

structure SettingsSession where
  sent : SessionPeers
  held : Settings

namespace SettingsSession

def start (version : Nat) (d : Delivery) (own : Node) : SettingsSession where
  sent := SessionPeers.fromPeers ((d.server.initialMapOf d.world own version).peers.getD [])
  held := Settings.ofMap (d.server.initialMapOf d.world own version)

/-- Build the update for a batch and receive it; without an update nothing happens. -/
def deliver (nodeId version : Nat) (s : SettingsSession) (d : Delivery) : SettingsSession :=
  match (exec (d.server.buildDelta nodeId d.batch s.sent version) d.world).1 with
  | .ok (response, sent) => { sent, held := s.held.receiveUpdate response }
  | .error _ => s

end SettingsSession

/-! ## What an update carries -/

theorem ChangeBatch.needs_rescan_of_policy {batch : ChangeBatch} (h : batch.hasPolicy = true) :
    batch.needsPeerRescan = true := by
  simp only [hasPolicy, needsPeerRescan, List.any_eq_true, beq_iff_eq] at h ⊢
  obtain ⟨event, hevent, rfl⟩ := h
  exact ⟨_, hevent, rfl⟩

/-- The settings after a delivery: filters and SSH policy come with a policy change, the DNS
configuration with a DNS change. -/
theorem SettingsSession.held_deliver {nodeId version : Nat} (s : SettingsSession) {d : Delivery}
    {own : Node} (hrow : d.world.db.getNodeById nodeId = some own) :
    (s.deliver nodeId version d).held =
      { s.held with
        packetFilters :=
          if d.batch.hasPolicy then some (BTreeMap.from [("base", d.server.filtersOf d.world own)])
          else s.held.packetFilters
        sshPolicy :=
          if d.batch.hasPolicy then
            (d.server.sshPolicyOf own d.world.compileNodes).or s.held.sshPolicy
          else s.held.sshPolicy
        dns := (if d.batch.hasDns then d.server.dnsOf d.world else none).or s.held.dns } := by
  unfold deliver
  cases hbatch : d.batch.needsPeerRescan with
  | false =>
    have hpolicy : d.batch.hasPolicy = false := by
      rw [← Bool.not_eq_true]
      intro hpolicy
      simp [ChangeBatch.needs_rescan_of_policy hpolicy] at hbatch
    rw [build_delta_run_other _ hbatch]
    simp only [Settings.receive_update_non_empty, hpolicy]
    rfl
  | true =>
    rw [build_delta_run _ hbatch hrow]
    dsimp only [deltaOf]
    cases hpolicy : d.batch.hasPolicy with
    | true => rfl
    | false =>
      simp only [Bool.false_eq_true, if_false, Settings.receive_update_non_empty]
      rfl

/-! ## What the settings depend on -/

section Depends

variable {cp : ControlPlane} {w w' : World}

theorem is_some_dns_of : (cp.dnsOf w).isSome = cp.dnsConfigured w := by
  unfold dnsOf
  cases cp.dnsConfigured w <;> rfl

theorem filters_of_congr (h : w'.compileNodes = w.compileNodes) {own own' : Node}
    (hid : own'.id = own.id) : cp.filtersOf w' own' = cp.filtersOf w own := by
  unfold filtersOf
  rw [h, hid]

theorem ssh_policy_of_congr (h : w'.compileNodes = w.compileNodes) {own own' : Node}
    (hid : own'.id = own.id) :
    cp.sshPolicyOf own' w'.compileNodes = cp.sshPolicyOf own w.compileNodes := by
  unfold sshPolicyOf
  rw [h, hid]

/-- The names and addresses of the nodes, which DNS records are made of. -/
def World.hosts (w : World) : List (String × List String) :=
  w.db.nodes.map fun node => (node.name, node.addresses)

theorem node_records_of_hosts (w : World) :
    ((w.db.nodes.map Node.toProto).flatMap fun node => node.addresses.filterMap (nodeRecord node)) =
      w.hosts.flatMap fun host => host.2.filterMap (nodeRecord { name := host.1 }) := by
  rw [World.hosts, List.flatMap_map, List.flatMap_map]
  rfl

theorem dns_of_congr (hhosts : w'.hosts = w.hosts) (hextra : w'.extraRecords = w.extraRecords) :
    cp.dnsOf w' = cp.dnsOf w := by
  simp only [dnsOf, dnsConfigured, DnsSettings.build,
    node_records_of_hosts, hhosts, hextra]

def shownUsers (cp : ControlPlane) (w : World) (own : Node) : BTreeSet Nat :=
  ControlPlane.mapUserIds own (cp.peerRows w own)

theorem profiles_of_congr {own own' : Node} (hshown : shownUsers cp w' own' = shownUsers cp w own)
    (husers : ∀ userId ∈ shownUsers cp w own, w'.db.getUser userId = w.db.getUser userId) :
    cp.profilesOf w' own' = cp.profilesOf w own := by
  unfold profilesOf
  unfold shownUsers at hshown husers
  rw [hshown]
  refine List.filterMap_congr fun userId hmem => ?_
  rw [husers userId (Std.ExtTreeSet.mem_toList.mp hmem)]

end Depends

/-! ## Runs -/

/-- From one delivery to the next, a batch carries everything that depends on something that
changed. -/
structure Covers (nodeId : Nat) (prev d : Delivery) (ownPrev own : Node) : Prop where
  server : d.server = prev.server
  rowPrev : prev.world.db.getNodeById nodeId = some ownPrev
  row : d.world.db.getNodeById nodeId = some own
  /-- The nodes as the policy compiler sees them changed only under a policy change that does not
  take the node's SSH policy away. -/
  policy : d.world.compileNodes = prev.world.compileNodes ∨
    (d.batch.hasPolicy = true ∧
      ((prev.server.sshPolicyOf ownPrev prev.world.compileNodes).isSome →
        (d.server.sshPolicyOf own d.world.compileNodes).isSome))
  /-- The names, addresses and extra records changed only under a DNS change that does not take the
  DNS configuration away. -/
  dns : (d.world.hosts = prev.world.hosts ∧ d.world.extraRecords = prev.world.extraRecords) ∨
    (d.batch.hasDns = true ∧
      (prev.server.dnsConfigured prev.world = true → d.server.dnsConfigured d.world = true))
  /-- The users of the map did not change. -/
  shown : shownUsers d.server d.world own = shownUsers prev.server prev.world ownPrev
  users : ∀ userId ∈ shownUsers prev.server prev.world ownPrev,
    d.world.db.getUser userId = prev.world.db.getUser userId

inductive CoveredStream (nodeId version : Nat) : SettingsSession → Delivery → Prop where
  | start {d : Delivery} {own : Node} (hrow : d.world.db.getNodeById nodeId = some own) :
      CoveredStream nodeId version (SettingsSession.start version d own) d
  | next {s : SettingsSession} {prev d : Delivery} {ownPrev own : Node} :
      CoveredStream nodeId version s prev → Covers nodeId prev d ownPrev own →
      CoveredStream nodeId version (s.deliver nodeId version d) d

section Runs

variable {nodeId version : Nat}

theorem filters_for_supported (hversion : minSupportedCapver ≤ version) (base : List FilterRule) :
    ControlPlane.filtersFor version base = (none, some (BTreeMap.from [("base", base)])) := by
  have hincremental : prefersIncrementalPacketFilters version = true :=
    decide_eq_true (Nat.le_trans (by decide : packetFiltersCapver ≤ minSupportedCapver) hversion)
  simp [filtersFor, hincremental]

theorem or_of_is_some_imp {α : Type} {prev next : Option α} (h : prev.isSome → next.isSome) :
    next.or prev = next := by
  cases next with
  | some value => rfl
  | none =>
    rw [Option.none_or, ← Option.not_isSome_iff_eq_none]
    exact fun hprev => Bool.false_ne_true (h hprev)

/-- One covered delivery leads from the settings of the previous state to those of the current
one. -/
theorem Covers.settings {prev d : Delivery} {ownPrev own : Node}
    (h : Covers nodeId prev d ownPrev own) (hversion : minSupportedCapver ≤ version)
    {s : SettingsSession}
    (hs : s.held = Settings.ofMap (prev.server.initialMapOf prev.world ownPrev version)) :
    (s.deliver nodeId version d).held =
      Settings.ofMap (d.server.initialMapOf d.world own version) := by
  have hid : own.id = ownPrev.id :=
    (Db.get_node_by_id_eq_some.mp h.row).2.trans (Db.get_node_by_id_eq_some.mp h.rowPrev).2.symm
  rw [s.held_deliver h.row, hs]
  simp only [Settings.ofMap, initialMapOf, filters_for_supported hversion,
    Settings.mk.injEq, true_and]
  refine ⟨?filters, ?ssh, ?dns, ?profiles⟩
  case filters =>
    cases h.policy with
    | inl hnodes => rw [← h.server, filters_of_congr hnodes hid, ite_self]
    | inr hpolicy => rw [if_pos hpolicy.1]
  case ssh =>
    cases h.policy with
    | inl hnodes =>
      rw [← h.server, ssh_policy_of_congr hnodes hid, Option.or_self, ite_self]
    | inr hpolicy => rw [if_pos hpolicy.1, or_of_is_some_imp hpolicy.2]
  case dns =>
    cases h.dns with
    | inl hsame =>
      rw [← h.server, dns_of_congr hsame.1 hsame.2]
      split
      · exact Option.or_self
      · rfl
    | inr hdns =>
      rw [if_pos hdns.1, or_of_is_some_imp]
      rw [is_some_dns_of, is_some_dns_of]
      exact hdns.2
  case profiles =>
    have hshown := h.shown
    have husers := h.users
    rw [← h.server] at hshown husers ⊢
    exact (profiles_of_congr hshown husers).symm

/-- In every stream whose batches cover every change, the client holds after each batch the packet
filters, SSH policy, DNS configuration and user profiles that a new complete map would give it. -/
theorem settings_current (hversion : minSupportedCapver ≤ version) {s : SettingsSession}
    {d : Delivery} (hstream : CoveredStream nodeId version s d) {own : Node}
    (hrow : d.world.db.getNodeById nodeId = some own) {request : MapRequest}
    (hrequest : request.version = version) :
    ∃ map, exec (d.server.buildInitialMap own request) d.world = (.ok map, d.world) ∧
      s.held = Settings.ofMap map := by
  subst hrequest
  refine ⟨_, reads_build_initial_map d.server own request d.world, ?_⟩
  induction hstream generalizing own with
  | start hstart =>
    cases hstart.symm.trans hrow
    rfl
  | next _ hcovers ih =>
    cases hcovers.row.symm.trans hrow
    exact hcovers.settings hversion (ih hcovers.rowPrev)

end Runs

def seenAgain : Delivery := { joined with batch := { events := [.peerSeen 2] } }

theorem covers_seen_again : Covers 1 joined seenAgain (plainNode 1) (plainNode 1) where
  server := rfl
  rowPrev := rfl
  row := rfl
  policy := .inl rfl
  dns := .inl ⟨rfl, rfl⟩
  shown := rfl
  users _ _ := rfl

/-- A stream in which nothing but presence changes keeps the client current. -/
theorem settings_current_seen_again :
    ∃ map, exec (seenAgain.server.buildInitialMap (plainNode 1) { version := 113 })
        seenAgain.world = (.ok map, seenAgain.world) ∧
      ((SettingsSession.start 113 joined (plainNode 1)).deliver 1 113 seenAgain).held =
        Settings.ofMap map :=
  settings_current (by decide) ((CoveredStream.start covers_seen_again.rowPrev).next
    covers_seen_again) covers_seen_again.row rfl

def registerRequest (key : Nat) : RegisterRequest :=
  { version := 113, nodeKey := ⟨key⟩, auth := some { authKey := "hskey-auth-test-secret" } }

/-- The first node registered on an empty store and opened a stream. -/
def streaming : World :=
  (exec (do
    let _ ← openServer.register ⟨1⟩ (registerRequest 1)
    let _ ← openServer.handleMap ⟨1⟩ { version := 113, nodeKey := ⟨1⟩, stream := true }
    memory .flush) (openServer.withStore Db.empty stillEnv)).2

/-- Then a second node registered. -/
def grown : World :=
  (exec (do
    let _ ← openServer.register ⟨2⟩ (registerRequest 2)
    memory .flush) streaming).2

def firstNode (w : World) : Node := (w.db.getNodeById 1).getD (plainNode 1)

/-- The one batch of the second registration reaches the first node's client without its new DNS
records. -/
theorem settings_stale :
    ∃ batch, grown.bus.sent = streaming.bus.sent ++ [batch] ∧
      ((SettingsSession.start 113 ⟨openServer, streaming, {}⟩ (firstNode streaming)).deliver 1 113
          ⟨openServer, grown, batch⟩).held.dns ≠
        (openServer.initialMapOf grown (firstNode grown) 113).dns :=
  ⟨{ events := [.nodeChanged 2] }, by decide +kernel, by decide +kernel⟩

end Crabscale.Control
