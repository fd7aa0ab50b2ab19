import Crabscale.Control.Reregister

/-!
# The two ways to authenticate a node again

With a valid pre-auth key the row of a logged-out node is authorized as it is. The interactive way
writes a new node over the row: the approved routes are gone and the addresses are drawn from those
that no row has (`interactive_reauthentication`). `reauthentication_routes` says what each keeps.
-/

namespace Crabscale.Control

open Rust Proto Interaction Interaction.Program ControlPlane

variable {cp : ControlPlane} {w₀ w : World} {row : Node}

/-! ## Fresh addresses -/

theorem slash_not_mem_display (ip : IpAddr) : '/' ∉ ip.display.toList := fun hmem =>
  absurd (parse_ip_chars (parse_ip_display ip) '/' hmem) (by decide)

theorem host_part_display (ip : IpAddr) {rest : String} {tail : List Char}
    (hrest : rest.toList = '/' :: tail) : hostPart (ip.display ++ rest) =
    ip.display := by
  rw [hostPart, head_split (slash_not_mem_display ip) hrest]
  rfl

theorem host_part_ipv4 (ip : Ipv4Addr) : hostPart (ip.display ++ "/32") = ip.display :=
  host_part_display (.v4 ip) rfl

theorem fresh_ipv4 {nodes : List Node} {ip : Ipv4Addr} (h : ip ∉ usedIpv4 nodes)
    (hrow : row ∈ nodes) : ip.display ++ "/32" ∉ row.addresses := by
  intro hmem
  refine h (List.mem_filterMap.mpr
    ⟨ip.display ++ "/32", List.mem_flatMap.mpr ⟨row, hrow, hmem⟩, ?_⟩)
  rw [host_part_ipv4, parse_ipv4_display]

variable {machineKey : MachineKey} {request : RegisterRequest}

/-! ## The interactive way -/

/-- What the interactive way makes of a row: the node is authorized under its id, without its
approved routes and at another address. -/
def Replaced (row : Node) (db : Db) : Prop :=
  ∃ after, db.getNodeByNodeKey row.nodeKey = some after ∧ after.id = row.id ∧
    after.machineAuthorized = true ∧ after.approvedRoutes = [] ∧ after.addresses ≠ row.addresses

theorem admit_node_replaces {node : Node} (hrow : row ∈ w₀.db.nodes)
    (hkey : row.nodeKey = node.nodeKey) (hauthorized : node.machineAuthorized = true)
    (hroutes : node.approvedRoutes = []) (haddresses : node.addresses ≠ row.addresses) :
    Yields (·.db.nodes = w₀.db.nodes) (admitNode node) (fun _ w => Replaced row w.db) := by
  refine Triple.bind (M := fun _ w => Replaced row w.db)
    (triple_store (fun _ _ => trivial) ?_ fun _ _ _ _ _ => trivial) fun stored =>
      triple_perform (fun _ _ => trivial) fun _ hw => hw
  intro w hw stored db hrun
  obtain ⟨stableId, hafter, -⟩ := Db.upsert_over (hw ▸ hrow) hkey hrun
  exact ⟨_, hafter, rfl, hauthorized, hroutes, haddresses⟩

theorem complete_followup_replaces {entry : PendingRegistration}
    {userId : Nat} {tags : Option (List String)} {now : String} {n : Nat}
    (hrow : row ∈ w₀.db.nodes) (hkey : row.nodeKey = entry.nodeKey)
    (hnot : row.machineAuthorized = false) :
    Yields (At w₀ n (· = w₀.db)) (cp.completeFollowup machineKey entry userId tags now)
      (fun _ w => Replaced row w.db) := by
  unfold completeFollowup
  have hremove : Yields (At w₀ n (· = w₀.db))
      (removePendingEntry entry.authId) (fun _ w => w.db.nodes = w₀.db.nodes) :=
    Triple.weaken remove_pending_ok (fun _ hw => hw) (fun _ _ hw => hw.1.1) fun _ _ _ => trivial
  refine hremove.bind fun _ => ?_
  refine triple_bind_read any_call_allows_quiet (reads_get_node_by_node_key entry.nodeKey)
    (calls_store trivial) fun found => ?_
  refine Triple.assume (φ := found = some row) (fun w hw => ?_) ?_
  · rw [← hw.2]
    exact Db.get_node_by_node_key_eq_some.mpr ⟨hw.1 ▸ hrow, hkey⟩
  rintro rfl
  refine Triple.pre (P := fun w => w.db.nodes = w₀.db.nodes) ?_ fun _ hw => hw.1
  dsimp only
  rw [if_neg (by simp [hnot])]
  refine ((create_node_spec any_call_allows_quiet machineKey entry.request userId tags
    entry.ephemeral now (·.nodes = w₀.db.nodes)).weaken (fun _ hw => hw) (fun _ _ hw => hw)
      fun _ _ _ => trivial).bind fun node => ?_
  refine triple_exists fun ipv4 => triple_exists fun ipv6 => ?_
  refine Triple.assume (φ := ipv4 ∉ usedIpv4 w₀.db.nodes ∧ node = cp.newNode machineKey
    entry.request userId tags entry.ephemeral now ipv4 ipv6)
    (fun _ hw => ⟨hw.1 ▸ hw.2.1.freeIpv4, hw.2.2⟩) ?_
  rintro ⟨hfresh, rfl⟩
  have haddresses : (cp.newNode machineKey entry.request userId tags entry.ephemeral now ipv4
      ipv6).addresses ≠ row.addresses := by
    intro hsame
    refine fresh_ipv4 hfresh hrow ?_
    rw [← hsame]
    exact List.mem_cons_self
  exact ((admit_node_replaces hrow hkey rfl rfl haddresses).pre fun _ hw => hw.1).bind fun _ =>
    triple_pure fun _ hw => hw

theorem poll_followup_replaces {authId : String} {entry : PendingRegistration} (now : String)
    (hauth : authIdFromFollowup request.followup = some authId)
    (hentry : w₀.db.getPending authId = some entry) (hrow : row ∈ w₀.db.nodes)
    (hkey : row.nodeKey = entry.nodeKey) (hnot : row.machineAuthorized = false) :
    Yields (At w₀ w₀.env.position (· = w₀.db)) (cp.pollFollowup machineKey request now)
      (fun response w => response.machineAuthorized = true → Replaced row w.db) := by
  have hrefuse (response : RegisterResponse) (h : response.machineAuthorized = false)
      (P : World → Prop) : Yields P (pure response : ControlM RegisterResponse)
        (fun response w => response.machineAuthorized = true → Replaced row w.db) :=
    triple_pure fun _ _ hanswer => by rw [h] at hanswer; cases hanswer
  unfold pollFollowup
  rw [hauth]
  refine (get_pending_entry_spec any_call_allows_quiet authId (· = w₀.db)).bind fun found => ?_
  refine Triple.assume (φ := found = some entry) (fun w hw => ?_) fun hfound => ?_
  · rw [← hw.1.2, hw.1.1]
    exact hentry
  subst hfound
  dsimp only
  split
  · exact hrefuse _ rfl _
  split
  · exact Triple.bind (any_triple _ _) fun _ => hrefuse _ rfl _
  cases entry.verdict with
  | pending => exact hrefuse _ rfl _
  | rejected => exact Triple.bind (any_triple _ _) fun _ => hrefuse _ rfl _
  | approved userId tags =>
    exact (complete_followup_replaces hrow hkey hnot).weaken (fun _ hw => ⟨hw.1.1, hw.2⟩)
      (fun _ _ hw _ => hw) fun _ _ _ => trivial

/-- The interactive way: a registration of a logged-out node's key, once it is followed up
successfully, has replaced the row. -/
theorem interactive_reauthentication (hboot : Bootstrapped cp w.db)
    {authId : String} {entry : PendingRegistration}
    (hauth : authIdFromFollowup request.followup = some authId)
    (hentry : w.db.getPending authId = some entry) (hrow : row ∈ w.db.nodes)
    (hkey : row.nodeKey = entry.nodeKey) (hnot : row.machineAuthorized = false)
    {response : RegisterResponse} {w' : World}
    (hrun : exec (cp.register machineKey request) w = (.ok response, w'))
    (hanswer : response.machineAuthorized = true) : Replaced row w'.db := by
  refine register_ok (Q := fun response w => response.machineAuthorized = true → Replaced row w.db)
    hboot ?_ hrun hanswer hanswer
  unfold registerAt
  rw [if_pos (auth_id_from_followup_ne_empty hauth)]
  refine (poll_followup_replaces (cp.nowAt w) hauth hentry hrow hkey hnot).pre ?_
  rintro _ rfl
  exact ⟨rfl, rfl, Nat.le_succ _⟩

/-! ## The way with a key -/

/-- The node has the id, the stable id, the addresses and the approved routes that it had. -/
structure SamePlace (row after : Node) : Prop where
  id : after.id = row.id
  stableId : after.stableId = row.stableId
  addresses : after.addresses = row.addresses
  approvedRoutes : after.approvedRoutes = row.approvedRoutes

/-- The request registers a row's node key with a valid pre-auth key without tags, and is none to
log out or to extend the node key. -/
structure PresentsKey (cp : ControlPlane) (w : World) (row : Node) (request : RegisterRequest)
    (key : PreAuthKey) : Prop where
  followup : request.followup = ""
  nodeKey : request.nodeKey = row.nodeKey
  expiry : request.expiry = "" ∨ cp.ext.isPast request.expiry (cp.nowAt w) = false ∧
    cp.ext.isFuture request.expiry (cp.nowAt w) = false
  valid : ∃ auth, request.auth = some auth ∧ cp.validKey auth (cp.nowAt w) w.db = some key
  untagged : key.tags = none

theorem valid_key_mem {auth : RegisterAuth} {now : String} {db : Db} {key : PreAuthKey}
    (h : cp.validKey auth now db = some key) : key ∈ db.preAuthKeys := by
  unfold validKey at h
  split at h
  · cases h
  · exact List.mem_of_find?_eq_some (Option.filter_eq_some_iff.mp h).1

theorem Db.mark_used_ok {db : Db} {key : PreAuthKey} (hkey : key ∈ db.preAuthKeys) :
    ∃ db', db.markPreAuthKeyUsed key.id = (.ok (), db') ∧ db'.nodes = db.nodes := by
  have hany : db.preAuthKeys.any (·.id == key.id) = true :=
    List.any_eq_true.mpr ⟨key, hkey, beq_self_eq_true key.id⟩
  rw [markPreAuthKeyUsed, if_pos hany]
  refine ⟨_, statement_of_valid db (edit_keys_valid ?_ ?_ ?_) (), rfl⟩
  all_goals
    intro stored
    split <;> rfl

theorem save_node_ok {node : Node} (hrow : row ∈ w.db.nodes) (hsame : SameRow node row)
    (hne : row.stableId ≠ "") (howner : node.userId = row.userId) :
    Yields (·.db = w.db) (saveNode node)
      (fun _ w' => w'.db.getNodeByNodeKey row.nodeKey = some node ∧
        w'.db.preAuthKeys = w.db.preAuthKeys) (fun _ _ => False) := by
  obtain ⟨stored, db, hok⟩ := Db.upsert_edit_ok hrow hsame hne howner
  refine Triple.bind (M := fun _ w' => w'.db.getNodeByNodeKey row.nodeKey = some node ∧
    w'.db.preAuthKeys = w.db.preAuthKeys) (triple_store (fun _ _ => trivial) ?_ ?_) fun _ =>
      triple_perform (fun _ _ => trivial) fun _ hw => hw
  · intro w' hw' result db' hrun
    have hkeys := (StoreCall.same_but w'.db (.upsertNode node)).preAuthKeys (by rintro ⟨⟩)
    rw [hrun] at hkeys
    rw [hw'] at hrun hkeys
    have hafter := Db.upsert_edit hrow hsame hrun
    rw [if_neg (by rw [hsame.stableId]; exact hne)] at hafter
    exact ⟨hafter, hkeys⟩
  · intro w' hw' error db' hrun
    rw [hw'] at hrun
    cases hok.symm.trans hrun

theorem reauthorize_ok (cp : ControlPlane) {key : PreAuthKey} (hrow : row ∈ w.db.nodes)
    (hne : row.stableId ≠ "") (hkey : key ∈ w.db.preAuthKeys) :
    Yields (·.db = w.db) (cp.reauthorize row key)
      (fun response w' => response = cp.authorizedResponse ∧ ∃ after,
        w'.db.getNodeByNodeKey row.nodeKey = some after ∧ after.machineAuthorized = true ∧
        SamePlace row after) (fun _ _ => False) := by
  have hsame : SameRow { row with
      machineAuthorized := true, tags := key.tags, ephemeral := key.ephemeral } row :=
    ⟨rfl, rfl, rfl, rfl⟩
  unfold reauthorize
  refine (save_node_ok hrow hsame hne rfl).bind fun _ => ?_
  refine Triple.bind (M := fun _ w' => w'.db.getNodeByNodeKey row.nodeKey = some { row with
    machineAuthorized := true, tags := key.tags, ephemeral := key.ephemeral }) ?_ fun _ =>
      triple_pure fun _ hw => ⟨rfl, _, hw, rfl, rfl, rfl, rfl, rfl⟩
  unfold consumeKey
  split
  case isFalse => exact triple_pure fun _ hw => hw.1
  case isTrue =>
    refine triple_store (fun _ _ => trivial) ?_ ?_
    · intro w' hw' _ db hrun
      obtain ⟨db', hok, hnodes⟩ := Db.mark_used_ok (hw'.2 ▸ hkey)
      cases hok.symm.trans hrun
      rw [Db.getNodeByNodeKey, hnodes]
      exact hw'.1
    · intro w' hw' error db hrun
      obtain ⟨db', hok, -⟩ := Db.mark_used_ok (hw'.2 ▸ hkey)
      cases hok.symm.trans hrun

theorem key_reauthentication (hboot : Bootstrapped cp w.db) (hrow : row ∈ w.db.nodes)
    (hnot : row.machineAuthorized = false) (hne : row.stableId ≠ "")
    {key : PreAuthKey} (h : PresentsKey cp w row request key) :
    ∃ w' after, exec (cp.register row.machineKey request) w = (.ok cp.authorizedResponse, w') ∧
      w'.db.getNodeByNodeKey row.nodeKey = some after ∧ after.machineAuthorized = true ∧
      SamePlace row after := by
  obtain ⟨auth, hauth, hvalid⟩ := h.valid
  have hexisting : exec (cp.registerAt row.machineKey request (cp.nowAt w)) w.tick =
      exec (cp.reauthorize row key) w.tick := by
    have hlookup : w.db.getNodeByNodeKey request.nodeKey = some row :=
      Db.get_node_by_node_key_eq_some.mpr ⟨hrow, h.nodeKey.symm⟩
    unfold exec registerAt
    rw [if_neg (not_not.mpr h.followup),
      run_bind_ok handler (reads_get_node_by_node_key request.nodeKey w.tick)]
    dsimp only [World.tick]
    rw [hlookup]
    have hpast : ¬(request.expiry ≠ "" && cp.ext.isPast request.expiry (cp.nowAt w)) = true := by
      obtain hnone | ⟨hpast, -⟩ := h.expiry
      · simp [hnone]
      · simp [hpast]
    have hfuture : ¬(request.expiry ≠ "" && cp.ext.isFuture request.expiry (cp.nowAt w)) =
      true := by
      obtain hnone | ⟨-, hfuture⟩ := h.expiry
      · simp [hnone]
      · simp [hfuture]
    dsimp only [registerExisting]
    rw [if_neg (not_not.mpr rfl), if_neg hpast, if_neg hfuture, if_neg (by simp [hnot]), hauth]
    dsimp only
    rw [run_bind_ok handler (reads_validated_auth_key auth (cp.nowAt w) _)]
    dsimp only
    rw [hvalid]
  obtain ⟨response, w', hrun, rfl, after, hafter⟩ :=
    (reauthorize_ok cp hrow hne (valid_key_mem hvalid)).total (s := w.tick) rfl
  rw [register_run hboot, hexisting, exec, hrun]
  exact ⟨w', after, rfl, hafter⟩

/-! ## Both ways -/

theorem same_place_of_subset {db db' : Db} {after : Node} (hrow : row ∈ db.nodes)
    (hnodes : db'.nodes ⊆ db.nodes) (hafter : db'.getNodeByNodeKey row.nodeKey = some after) :
    SamePlace row after := by
  obtain ⟨hmem, hkey⟩ := Db.get_node_by_node_key_eq_some.mp hafter
  obtain rfl := List.inj_on_of_nodup_map db.valid.nodeKeys (hnodes hmem) hrow hkey
  exact ⟨rfl, rfl, rfl, rfl⟩

def StaysInPlace (row : Node) (w : World) : Prop :=
  ∀ after, w.db.getNodeByNodeKey row.nodeKey = some after → SamePlace row after

theorem logout_node_same_place (hrow : row ∈ w.db.nodes) (hne : row.stableId ≠ "")
    (nodeKeyExpired : Bool) :
    Yields (·.db = w.db) (cp.logoutNode row nodeKeyExpired) (fun _ => StaysInPlace row) := by
  have hpublish (event : ChangeEvent) (response : RegisterResponse) :
      Yields (StaysInPlace row) (publishChange event >>= fun _ => pure response)
        (fun _ => StaysInPlace row) :=
    Triple.bind (M := fun _ => StaysInPlace row)
      (triple_perform (fun _ _ => trivial) fun _ hw => hw) fun _ => triple_pure fun _ hw => hw
  unfold logoutNode
  split
  · refine triple_pure fun w' hw' after hafter => ?_
    exact same_place_of_subset hrow (by rw [hw']; exact List.Subset.refl _) hafter
  split
  · refine Triple.bind (triple_store (fun _ _ => trivial) ?_ fun _ _ _ _ _ => trivial) fun _ =>
      hpublish _ _
    intro w' hw' _ db hrun after hafter
    have hnodes := Db.nodes_delete w'.db row.nodeKey
    rw [show w'.db.deleteNode row.nodeKey = _ from hrun, hw'] at hnodes
    exact same_place_of_subset hrow hnodes hafter
  · refine Triple.bind (triple_store (fun _ _ => trivial) ?_ fun _ _ _ _ _ => trivial) fun _ =>
      hpublish _ _
    intro w' hw' _ db hrun after hafter
    have hsame : SameRow { row with machineAuthorized := false } row := ⟨rfl, rfl, rfl, rfl⟩
    have hwritten := Db.upsert_edit (hw' ▸ hrow) hsame hrun
    rw [if_neg hne] at hwritten
    cases hwritten.symm.trans hafter
    exact ⟨rfl, rfl, rfl, rfl⟩

theorem logout_same_place {response : RegisterResponse} {w' : World} {after : Node}
    (hrow : row ∈ w.db.nodes) (hne : row.stableId ≠ "")
    (hrun : exec (cp.logout row.machineKey row.nodeKey) w = (.ok response, w'))
    (hafter : w'.db.getNodeByNodeKey row.nodeKey = some after) : SamePlace row after := by
  have hlogout : Yields (· = w) (cp.logout row.machineKey row.nodeKey)
      (fun _ => StaysInPlace row) := by
    unfold logout
    refine triple_bind_run (safe_any _ _) (reads_get_node_by_node_key row.nodeKey w) ?_
    dsimp only
    rw [Db.get_node_by_node_key_eq_some.mpr ⟨hrow, rfl⟩, Option.filter_some, if_pos (by simp)]
    exact (logout_node_same_place hrow hne false).pre fun _ hw => by rw [hw]
  exact hlogout.ok rfl hrun after hafter

/-- In every run from an empty store, for the row of every logged-out node: a logout left it in its
place; a valid pre-auth key without tags authorizes it in its place, if it has a stable id; the
interactive way keeps the id, drops the approved routes and moves the node to other addresses. -/
theorem reauthentication_routes (hids : cp.HasIds) {env : Env}
    (hrun : Runs cp (fun _ _ => True) (fun _ => True) (cp.withStore Db.empty env) w)
    (hrow : row ∈ w.db.nodes) (hnot : row.machineAuthorized = false) :
    (∀ before w₀ response, before ∈ w₀.db.nodes → before.stableId ≠ "" →
      before.nodeKey = row.nodeKey →
      exec (cp.logout before.machineKey before.nodeKey) w₀ = (.ok response, w) →
      SamePlace before row) ∧
    (row.stableId ≠ "" → ∀ request key, PresentsKey cp w row request key →
      ∃ w' after, exec (cp.register row.machineKey request) w = (.ok cp.authorizedResponse, w') ∧
        w'.db.getNodeByNodeKey row.nodeKey = some after ∧ after.machineAuthorized = true ∧
        SamePlace row after) ∧
    ∀ machineKey request authId entry response w',
      authIdFromFollowup request.followup = some authId → w.db.getPending authId = some entry →
      row.nodeKey = entry.nodeKey → exec (cp.register machineKey request) w = (.ok response, w') →
      response.machineAuthorized = true → Replaced row w'.db := by
  have hboot : Bootstrapped cp w.db := by
    have hseeded : Seeded cp w.db := Seeded.run hids (fun h => absurd rfl h) hrun
    exact hseeded (List.ne_nil_of_mem hrow)
  refine ⟨?_, ?_, ?_⟩
  · intro before w₀ response hbefore hne hkey hlogout
    exact logout_same_place hbefore hne hlogout
      (Db.get_node_by_node_key_eq_some.mpr ⟨hrow, hkey.symm⟩)
  · intro hne request key hpresents
    exact key_reauthentication hboot hrow hnot hne hpresents
  · intro machineKey request authId entry response w' hauth hentry hkey hregister hanswer
    exact interactive_reauthentication hboot hauth hentry hrow hkey hnot hregister hanswer

/-- The first node registered, got a route approved and logged out. -/
def routerLeft : World :=
  runOps openServer [registerFirst, .approveRoute ⟨1⟩ "10.0.0.0/24", .logout ⟨1⟩ ⟨1⟩]
    (openServer.withStore Db.empty stillEnv)

/-- The configured key brings the node back to its place. -/
theorem reauthentication_routes_router :
    ∃ row ∈ routerLeft.db.nodes, row.approvedRoutes = ["10.0.0.0/24"] ∧
      ∃ w' after, exec (openServer.register row.machineKey (registerRequest 1)) routerLeft =
          (.ok openServer.authorizedResponse, w') ∧
        w'.db.getNodeByNodeKey row.nodeKey = some after ∧ after.machineAuthorized = true ∧
        SamePlace row after := by
  have hrow : ∃ row ∈ routerLeft.db.nodes, row.approvedRoutes = ["10.0.0.0/24"] ∧
      row.machineAuthorized = false ∧ row.stableId ≠ "" ∧ row.nodeKey = ⟨1⟩ := by
    decide +kernel
  have hkey : (openServer.validKey { authKey := "hskey-auth-test-secret" }
    (openServer.nowAt routerLeft)
      routerLeft.db).map PreAuthKey.tags = some none := by
    decide +kernel
  obtain ⟨row, hrow, hroutes, hnot, hne, hnodeKey⟩ := hrow
  obtain ⟨key, hvalid, huntagged⟩ := Option.map_eq_some_iff.mp hkey
  have hrun : Runs openServer (fun _ _ => True) (fun _ => True)
      (openServer.withStore Db.empty stillEnv) routerLeft :=
    .step (.step (.step (.refl trivial) trivial trivial) trivial trivial) trivial trivial
  have hpresents : PresentsKey openServer routerLeft row (registerRequest 1) key :=
    ⟨rfl, hnodeKey.symm, .inl rfl, ⟨_, rfl, hvalid⟩, huntagged⟩
  have hids : openServer.HasIds := ⟨by decide, by decide⟩
  exact ⟨row, hrow, hroutes,
    (reauthentication_routes hids hrun hrow hnot).2.1 hne _ key hpresents⟩

def routerBack : World := runOps openServer [askFor 1 1, approve, followUp 1 1] routerLeft

/-- The interactive way gave the node other addresses and took its route. -/
theorem router_moved :
    (routerLeft.db.getNodeByNodeKey ⟨1⟩).map (fun row =>
        (row.id, row.machineAuthorized, row.addresses, row.approvedRoutes)) =
      some (1, false, ["100.64.0.4/32", "fd7a:115c:a1e0::5/128"], ["10.0.0.0/24"]) ∧
    (routerBack.db.getNodeByNodeKey ⟨1⟩).map (fun row =>
        (row.id, row.machineAuthorized, row.addresses, row.approvedRoutes)) =
      some (1, true, ["100.64.0.11/32", "fd7a:115c:a1e0::c/128"], []) := by
  decide +kernel

end Crabscale.Control
