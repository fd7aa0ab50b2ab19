import Crabscale.Control.Rules
import Crabscale.Control.Settings

/-!
# What a node is shown of its peers

`isPeer` tests the authorization of the peer only, so neither a map nor an update looks at whether
its own node is still authorized. `peers_hidden_iff` says exactly when the policy hides the peers.
-/

namespace Crabscale.Control

open Rust Proto Policy ControlPlane

def ShowsPeer (response : MapResponse) : Prop :=
  response.peers.getD [] ≠ [] ∨ response.peersChanged.getD [] ≠ [] ∨
    response.peersChangedPatch.getD [] ≠ []

instance (response : MapResponse) : Decidable (ShowsPeer response) :=
  inferInstanceAs (Decidable (_ ∨ _ ∨ _))

def NoPeers (cp : ControlPlane) (w : World) (node : Node) : Prop :=
  ∀ stored ∈ w.db.nodes, ControlPlane.isPeer node (cp.visibleOf w node) stored = false

/-- The database with a row written. -/
def World.writeNode (w : World) (node : Node) : World := { w with db := (w.db.upsertNode node).2 }

section Peers

variable {cp : ControlPlane} {w w' : World} {node : Node}

theorem no_peers_iff : NoPeers cp w node ↔ cp.peerRows w node = [] := by
  simp [NoPeers, peerRows, List.filter_eq_nil_iff]

theorem peer_rows_congr (hdb : w'.db = w.db) : cp.peerRows w' node = cp.peerRows w node := by
  have hcompile : w'.compileNode = w.compileNode := by
    funext stored
    simp only [World.compileNode, World.ownerLogin, hdb]
  simp only [peerRows, visibleOf, World.compileNodes, hcompile, hdb]

theorem shows_peer_initial_map (version : Nat) :
    ShowsPeer (cp.initialMapOf w node version) ↔ cp.peerRows w node ≠ [] := by
  have hsorted : ((cp.peerRows w node).map (cp.peerOf w version)).insertionSort
      (fun a b => a.id ≤ b.id) = [] ↔ cp.peerRows w node = [] := by
    rw [← List.length_eq_zero_iff, List.length_insertionSort, List.length_map,
      List.length_eq_zero_iff]
  simp [ShowsPeer, initialMapOf, hsorted]

theorem not_shows_peer_delta (hnone : cp.peerRows w node = []) (batch : ChangeBatch)
    (sent : SessionPeers) (version : Nat) {response : MapResponse}
    (hresponse : cp.deltaOf w node batch sent version = some response) : ¬ShowsPeer response := by
  have hnext : (cp.nextPeers w node version).toList = [] := by
    rw [nextPeers, hnone]
    rfl
  unfold deltaOf peerDeltaOf at hresponse
  rw [diff_session_eq, hnext] at hresponse
  dsimp only at hresponse
  split at hresponse
  · cases hresponse
    simp [ShowsPeer, policyDeltaOf, namedPartsOf]
  · unfold nonEmpty at hresponse
    split at hresponse <;> cases hresponse
    simp [ShowsPeer, peerDelta, namedPartsOf, nonEmptyList]

theorem shows_peer_delta (hsome : cp.peerRows w node ≠ []) (version : Nat) :
    ∃ response, cp.deltaOf w node { events := [.policyChanged] } {} version = some response ∧
      ShowsPeer response := by
  refine ⟨_, rfl, .inl ?_⟩
  obtain ⟨stored, hstored⟩ := List.exists_mem_of_ne_nil _ hsome
  have hnext := getElem?_next_peers.mpr
    ⟨stored, hstored, rfl, (rfl : (cp.peerOf w version stored, stored.keyExpiry) = _)⟩
  rw [peerDeltaOf, diff_session_eq]
  simp only [policyDeltaOf, Option.getD_some, ne_eq, List.map_eq_nil_iff]
  intro hempty
  rw [← Std.ExtTreeMap.mem_toList_iff_getElem?_eq_some, hempty] at hnext
  cases hnext

/-- A map request shows no peer exactly when it is only a row update or the policy hides everyone
from the row it writes. -/
theorem map_hides_peers_iff (hnode : node ∈ w.db.nodes) {request : MapRequest}
    (hkey : request.nodeKey = node.nodeKey) {outcome : MapOutcome}
    (hrun : exec (cp.handleMap node.machineKey request) w = (.ok outcome, w')) :
    (∀ response, outcome.response = some response → ¬ShowsPeer response) ↔
      isLite request = true ∨
        ∀ row, cp.mapRow w node request = some row → NoPeers cp (w.writeNode row) row := by
  obtain ⟨row, w₁, ⟨before, hbefore, -, hrow⟩, ⟨⟨stored, hwrote⟩, -⟩, -, hresponse, -⟩ :=
    handle_map_ok hrun
  rw [hkey, Db.get_node_by_node_key_eq_some.mpr ⟨hnode, rfl⟩, Option.some_inj] at hbefore
  subst hbefore
  have hpeers : cp.peerRows w₁ row = cp.peerRows (w.writeNode row) row :=
    peer_rows_congr (by simp [World.writeNode, hwrote])
  rw [hresponse]
  cases isLite request with
  | true => simp
  | false =>
    simp only [Bool.false_eq_true, if_false, Option.some_inj, forall_eq', shows_peer_initial_map,
      hrow, no_peers_iff, hpeers, ne_eq, not_not, false_or]

theorem updates_hide_peers_iff (hnode : node ∈ w.db.nodes) :
    (∀ batch sent version response sent',
      exec (cp.buildDelta node.id batch sent version) w = (.ok (some response, sent'), w) →
        ¬ShowsPeer response) ↔ NoPeers cp w node := by
  have hrow := Db.get_node_by_id_eq_some.mpr ⟨hnode, rfl⟩
  rw [no_peers_iff]
  constructor
  · intro hhidden
    by_contra hsome
    obtain ⟨response, hresponse, hshows⟩ := shows_peer_delta hsome 0
    refine hhidden { events := [.policyChanged] } {} 0 response
      (cp.peerDeltaOf w node {} 0).2 ?_ hshows
    rw [build_delta_run cp rfl hrow, hresponse]
  · intro hnone batch sent version response sent' hrun
    obtain ⟨-, rfl⟩ | ⟨_, hfound, hresponse⟩ := build_delta_cases (congrArg Prod.fst hrun)
    · simp [ShowsPeer, namedPartsOf]
    · cases hrow.symm.trans hfound
      exact not_shows_peer_delta hnone batch sent version hresponse

/-- When a stored node is shown no peers, whether it is authorized or not: a map request of its
machine shows none exactly when it is a mere row update or, with the row it writes, no other
authorized node is visible to the node under the policy, and its session's updates show none exactly
when no other authorized node is visible to it. -/
theorem peers_hidden_iff (cp : ControlPlane) (w : World) {node : Node} (hnode : node ∈ w.db.nodes) :
    (∀ request outcome w', request.nodeKey = node.nodeKey →
      exec (cp.handleMap node.machineKey request) w = (.ok outcome, w') →
        ((∀ response, outcome.response = some response → ¬ShowsPeer response) ↔
          isLite request = true ∨
            ∀ row, cp.mapRow w node request = some row → NoPeers cp (w.writeNode row) row)) ∧
      ((∀ batch sent version response sent',
        exec (cp.buildDelta node.id batch sent version) w = (.ok (some response, sent'), w) →
          ¬ShowsPeer response) ↔ NoPeers cp w node) :=
  ⟨fun _ _ _ hkey hrun => map_hides_peers_iff hnode hkey hrun, updates_hide_peers_iff hnode⟩

end Peers

def loggedOut : World := (exec (openServer.logout ⟨1⟩ ⟨1⟩) grown).2

theorem first_node_mem_logged_out : firstNode loggedOut ∈ loggedOut.db.nodes := by decide +kernel

/-- Its session's updates still show it the other node. -/
theorem peers_hidden_iff_logged_out :
    ¬∀ batch sent version response sent',
      exec (openServer.buildDelta (firstNode loggedOut).id batch sent version) loggedOut =
          (.ok (some response, sent'), loggedOut) → ¬ShowsPeer response := by
  rw [(peers_hidden_iff openServer loggedOut first_node_mem_logged_out).2, no_peers_iff]
  decide +kernel

/-- A node that logged out asks for its map and is shown the other node. -/
theorem deauthorized_sees_peers :
    (firstNode loggedOut).machineAuthorized = false ∧
      ((exec (openServer.handleMap ⟨1⟩ { version := 113, nodeKey := ⟨1⟩ })
        loggedOut).1.toOption.bind
        MapOutcome.response).any (fun response => decide (ShowsPeer response)) = true := by
  decide +kernel

end Crabscale.Control
