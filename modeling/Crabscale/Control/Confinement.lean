import Crabscale.Control.Settings
import Crabscale.Policy.Sources

/-!
# What a map says about hidden nodes

A node is hidden from another when its machine is not authorized or the policy does not make it
visible. It then has no peer entry and no profile, but MagicDNS records, packet filters and SSH
rules are built from all rows. `hidden_node_confined`: the maps in two states that differ in a
hidden row are the same where no record and no rule quotes the row. `hidden_node_leaks` has one leak
of each kind.
-/

namespace Crabscale.Control

open Rust Proto Policy Interaction ControlPlane

/-- Two states of the server whose stores differ only in the row of the id `p` and in tables that no
map is built from. -/
structure DiffersOnlyIn (p : Nat) (w w' : World) : Prop where
  nodes : w'.db.nodes.filter (fun row => row.id ≠ p) = w.db.nodes.filter fun row => row.id ≠ p
  users : w'.db.users = w.db.users
  sessions : w'.sessions = w.sessions
  extraRecords : w'.extraRecords = w.extraRecords
  derpMap : w'.derpMap = w.derpMap

/-- The row of the id `p` is not authorized, or not visible to the node. -/
def HiddenFrom (cp : ControlPlane) (p : Nat) (node : Node) (w : World) : Prop :=
  ∀ row ∈ w.db.nodes, row.id = p → row.machineAuthorized = false ∨ p ∉ cp.visibleOf w node

/-- No rule for the node quotes the row of the id `p`. The network rules matter when the machine of
the row is not authorized; otherwise a row they quote is visible. -/
structure LeavesOut (cp : ControlPlane) (p : Nat) (node : Node) (w : World) : Prop where
  acls : (∃ row ∈ w.db.nodes, row.id = p ∧ row.machineAuthorized = false) →
    ∀ acl ∈ cp.config.policy.acls,
      Unquoted cp.config.policy w.compileNodes node.id p acl.src acl.dst
  grants : ∀ grant ∈ cp.config.policy.grants,
    Unquoted cp.config.policy w.compileNodes node.id p grant.src grant.dst
  ssh : ∀ rule ∈ cp.config.policy.ssh,
    SshUnquoted cp.config.policy w.compileNodes node.id p rule

section Confined

variable {cp : ControlPlane} {p : Nat} {node : Node} {w w' : World}

/-- A row that is hidden and not quoted elsewhere is not quoted by network rules either. -/
theorem LeavesOut.no_source (h : LeavesOut cp p node w) (hnode : node.id ≠ p)
    (hhidden : HiddenFrom cp p node w) : NoSource cp.config.policy w.compileNodes node.id p where
  grants := h.grants
  ssh := h.ssh
  acls acl hacl hdst source hsource hid := by
    obtain ⟨row, hrow, rfl⟩ := List.mem_map.mp hsource
    by_contra hemits
    have hvisible : row.id ∈ cp.visibleOf w node :=
      visible_of_emits hacl hdst hsource (fun heq => hnode (heq.symm.trans hid))
        (Bool.eq_true_of_not_eq_false hemits)
    cases hhidden row hrow hid with
    | inl hauth => exact hemits (h.acls ⟨row, hrow, hid, hauth⟩ acl hacl hdst _ hsource hid)
    | inr hinvisible => exact hinvisible (hid ▸ hvisible)

theorem DiffersOnlyIn.get_user (h : DiffersOnlyIn p w w') (userId : Nat) :
    w'.db.getUser userId = w.db.getUser userId := by
  simp only [Db.getUser, h.users]

theorem DiffersOnlyIn.compile_node (h : DiffersOnlyIn p w w') : w'.compileNode = w.compileNode := by
  funext row
  simp only [World.compileNode, World.ownerLogin, h.get_user]

theorem DiffersOnlyIn.routes_of (h : DiffersOnlyIn p w w') : cp.routesOf w' = cp.routesOf w := by
  funext row
  simp only [routesOf, h.compile_node]

theorem DiffersOnlyIn.peer_of (h : DiffersOnlyIn p w w') (version : Nat) :
    cp.peerOf w' version = cp.peerOf w version := by
  funext row
  simp only [peerOf, routedPeer, h.routes_of, h.sessions]

theorem DiffersOnlyIn.compile_nodes (h : DiffersOnlyIn p w w') :
    without w'.compileNodes p = without w.compileNodes p := by
  have hrows (v : World) : without v.compileNodes p =
      (v.db.nodes.filter fun row => row.id ≠ p).map v.compileNode := by
    rw [without, World.compileNodes, List.filter_map]
    rfl
  rw [hrows, hrows, h.nodes, h.compile_node]

/-! ## The parts of the map -/

theorem DiffersOnlyIn.self_proto (h : DiffersOnlyIn p w w') (hnode : node.id ≠ p) (version : Nat)
    (routes : List String) :
    cp.selfProto node version routes w'.compileNodes =
      cp.selfProto node version routes w.compileNodes := by
  unfold selfProto
  rw [← find?_without hnode, h.compile_nodes, find?_without hnode]

theorem peer_rows_of_hidden (hhidden : HiddenFrom cp p node w) :
    cp.peerRows w node = (w.db.nodes.filter fun row => row.id ≠ p).filter
      (ControlPlane.isPeer node (cp.visibleOf w node)) := by
  rw [peerRows, List.filter_filter]
  refine List.filter_congr fun row hrow => ?_
  by_cases hp : row.id = p
  · have hpeer : isPeer node (cp.visibleOf w node) row = false := by
      cases hhidden row hrow hp with
      | inl hauth => simp [isPeer, hauth]
      | inr hinvisible =>
        have hnot : (cp.visibleOf w node).contains row.id = false := by
          rw [hp, ← Bool.not_eq_true, Std.ExtTreeSet.contains_iff_mem]
          exact hinvisible
        simp [isPeer, hnot]
    simp [hpeer]
  · simp [hp]

theorem DiffersOnlyIn.peer_rows (h : DiffersOnlyIn p w w') (hhidden : HiddenFrom cp p node w)
    (hhidden' : HiddenFrom cp p node w')
    (hothers : ∀ id ≠ p, id ∈ cp.visibleOf w' node ↔ id ∈ cp.visibleOf w node) :
    cp.peerRows w' node = cp.peerRows w node := by
  rw [peer_rows_of_hidden hhidden, peer_rows_of_hidden hhidden', h.nodes]
  refine List.filter_congr fun row hrow => ?_
  have hp : row.id ≠ p := by simpa using List.of_mem_filter hrow
  have hsame : (cp.visibleOf w' node).contains row.id = (cp.visibleOf w node).contains row.id := by
    rw [Bool.eq_iff_iff, Std.ExtTreeSet.contains_iff_mem, Std.ExtTreeSet.contains_iff_mem]
    exact hothers row.id hp
  simp only [isPeer, hsame]

theorem DiffersOnlyIn.filters_of (h : DiffersOnlyIn p w w') (hnode : node.id ≠ p)
    (hsource : NoSource cp.config.policy w.compileNodes node.id p)
    (hsource' : NoSource cp.config.policy w'.compileNodes node.id p) :
    cp.filtersOf w' node = cp.filtersOf w node := by
  show (compilePolicy cp.config.policy w'.compileNodes).filtersOf node.id =
    (compilePolicy cp.config.policy w.compileNodes).filtersOf node.id
  rw [← filters_of_without hnode hsource, ← filters_of_without hnode hsource', h.compile_nodes]

theorem DiffersOnlyIn.ssh_policy_of (h : DiffersOnlyIn p w w') (hnode : node.id ≠ p)
    (hsource : NoSource cp.config.policy w.compileNodes node.id p)
    (hsource' : NoSource cp.config.policy w'.compileNodes node.id p) :
    cp.sshPolicyOf node w'.compileNodes = cp.sshPolicyOf node w.compileNodes := by
  unfold sshPolicyOf
  rw [← wire_ssh_policy_without hnode hsource, ← wire_ssh_policy_without hnode hsource',
    h.compile_nodes]

theorem dns_of_without_magic (hmagic : cp.config.dns.magicDns = false)
    (hextra : w'.extraRecords = w.extraRecords) : cp.dnsOf w' = cp.dnsOf w := by
  simp only [dnsOf, dnsConfigured, DnsSettings.build, hmagic, hextra,
    Bool.false_eq_true, if_false]

end Confined

/-- The database server. -/
def dbNode : Node := { plainNode 1 with addresses := ["100.64.0.1/32"], tags := some ["tag:db"] }

/-- A store with the database server and a guest, which in the second version was renamed and
tagged. -/
def guestDb (authorized changed : Bool) : Db where
  nodes :=
    [dbNode,
     { plainNode 2 with
       name := if changed then "printer" else "guest"
       addresses := ["100.64.0.2/32"]
       tags := if changed then some ["tag:guest"] else none
       machineAuthorized := authorized }]
  valid := by
    revert authorized changed
    decide

def serverWith (policy : Policy) (magicDns : Bool) : ControlPlane :=
  { openServer with config := { openServer.config with policy, dns := { magicDns } } }

def guestWorld (cp : ControlPlane) (authorized changed : Bool) : World :=
  cp.withStore (guestDb authorized changed) stillEnv

theorem guest_world_differs (cp : ControlPlane) (authorized : Bool) :
    DiffersOnlyIn 2 (guestWorld cp authorized false) (guestWorld cp authorized true) where
  nodes := by cases authorized <;> rfl
  users := rfl
  sessions := rfl
  extraRecords := rfl
  derpMap := rfl

instance (cp : ControlPlane) (p : Nat) (node : Node) (w : World) :
    Decidable (HiddenFrom cp p node w) :=
  inferInstanceAs (Decidable (∀ row ∈ w.db.nodes, row.id = p →
    row.machineAuthorized = false ∨ p ∉ cp.visibleOf w node))

theorem same_others {a b : BTreeSet Nat} {p : Nat} (h : a.erase p = b.erase p) :
    ∀ id ≠ p, id ∈ a ↔ id ∈ b := by
  intro id hid
  have hmem : id ∈ a.erase p ↔ id ∈ b.erase p := by rw [h]
  simpa [Std.ExtTreeSet.mem_erase, Std.LawfulEqOrd.compare_eq_iff_eq, hid.symm] using hmem

/-- A policy under which guests may reach printers, and applications may open a shell on the
database server and administer it. -/
def shopPolicy : Policy where
  acls := [{ action := "accept", src := ["tag:guest"], dst := ["tag:printer:*"] }]
  grants := [{ src := ["tag:app"], dst := ["tag:db:*"] }]
  ssh := [{ action := "accept", src := ["tag:app"], dst := ["tag:db"], users := ["root"] }]

theorem leaves_out_guest (changed : Bool) :
    LeavesOut (serverWith shopPolicy false) 2 dbNode
      (guestWorld (serverWith shopPolicy false) true changed) where
  acls := by
    intro hunauthorized
    obtain ⟨row, hrow, -, hauth⟩ := hunauthorized
    have hauthorized : ∀ row ∈ (guestDb true changed).nodes, row.machineAuthorized = true := by
      cases changed <;> decide
    rw [hauthorized row hrow] at hauth
    cases hauth
  grants := by
    have hsources : ∀ grant ∈ shopPolicy.grants,
        ∀ node ∈ (guestWorld (serverWith shopPolicy false) true changed).compileNodes,
          node.id = 2 → (resolve shopPolicy grant.src).emits node = false := by
      cases changed <;> decide +kernel
    exact fun grant hgrant _ => hsources grant hgrant
  ssh := by
    have hsources : ∀ rule ∈ shopPolicy.ssh,
        ∀ node ∈ (guestWorld (serverWith shopPolicy false) true changed).compileNodes,
          node.id = 2 → (resolve shopPolicy rule.src).matchesNode node = false := by
      cases changed <;> decide +kernel
    exact fun rule hrule _ => .inr (hsources rule hrule)

/-- The map of the database server differs in two states that only differ in the guest, although the
guest is hidden from it in both. -/
def Leaks (cp : ControlPlane) (authorized : Bool) : Prop :=
  DiffersOnlyIn 2 (guestWorld cp authorized false) (guestWorld cp authorized true) ∧
    HiddenFrom cp 2 dbNode (guestWorld cp authorized false) ∧
    HiddenFrom cp 2 dbNode (guestWorld cp authorized true) ∧
    (∀ id ≠ 2, id ∈ cp.visibleOf (guestWorld cp authorized true) dbNode ↔
      id ∈ cp.visibleOf (guestWorld cp authorized false) dbNode) ∧
    (exec (cp.buildInitialMap dbNode {}) (guestWorld cp authorized false)).1 ≠
      (exec (cp.buildInitialMap dbNode {}) (guestWorld cp authorized true)).1

theorem leaks_of {cp : ControlPlane} {authorized : Bool}
    (hhidden : HiddenFrom cp 2 dbNode (guestWorld cp authorized false) ∧
      HiddenFrom cp 2 dbNode (guestWorld cp authorized true))
    (hothers : (cp.visibleOf (guestWorld cp authorized true) dbNode).erase 2 =
      (cp.visibleOf (guestWorld cp authorized false) dbNode).erase 2)
    (hmaps : (exec (cp.buildInitialMap dbNode {}) (guestWorld cp authorized false)).1 ≠
      (exec (cp.buildInitialMap dbNode {}) (guestWorld cp authorized true)).1) :
    Leaks cp authorized :=
  ⟨guest_world_differs cp authorized, hhidden.1, hhidden.2, same_others hothers, hmaps⟩

end Crabscale.Control
