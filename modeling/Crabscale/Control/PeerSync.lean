import Crabscale.Control.View

/-!
# Replaying peer updates

What a client holds after a peer update, for any quantity `V` that it keeps per peer.
`getElem?_replay_peer_delta` computes the value of one peer from the session's verdict on it, so
that a convergence statement only has to look at the three verdicts.
-/

namespace Crabscale.Control

open Rust Proto Policy

/-! ## The client -/

section Replay

variable {V : Type} (onPut : WireNode → V) (onPatch : PeerChange → V → V)

/-- Apply a response to what a client keeps per peer: a full list replaces everything, otherwise
peers are removed, put and patched, in this order. -/
def replay (client : BTreeMap Nat V) (response : MapResponse) : BTreeMap Nat V :=
  match response.peers with
  | some peers => peers.foldl (fun client peer => client.insert peer.id (onPut peer)) ∅
  | none =>
    let kept := (response.peersRemoved.getD []).foldl (fun client id => client.erase id) client
    let put := (response.peersChanged.getD []).foldl
      (fun client peer => client.insert peer.id (onPut peer)) kept
    (response.peersChangedPatch.getD []).foldl
      (fun client change => client.alter change.nodeId (Option.map (onPatch change))) put

def replayUpdate (client : BTreeMap Nat V) : Option MapResponse → BTreeMap Nat V
  | none => client
  | some response => replay onPut onPatch client response

theorem replay_update_non_empty (client : BTreeMap Nat V) (response : MapResponse) :
    replayUpdate onPut onPatch client (ControlPlane.nonEmpty response) =
      replay onPut onPatch client response := by
  unfold ControlPlane.nonEmpty
  split
  case isTrue hempty => rw [hempty]; rfl
  case isFalse => rfl

theorem getElem?_erase_all {ids : List Nat} (hids : ids.Nodup) (client : BTreeMap Nat V)
    (id : Nat) :
    (ids.foldl (fun client id => client.erase id) client)[id]? =
      if id ∈ ids then none else client[id]? := by
  rw [getElem?_foldl_keyed (fun id => id) (f := fun _ _ => none)
    (fun client other k => by rw [Std.ExtTreeMap.getElem?_erase]; simp) (by simpa using hids)]
  by_cases hid : id ∈ ids
  · rw [find?_eq_some_of_nodup (fun id => id) (by simpa using hids) hid, if_pos hid]
  · have hnone : ids.find? (fun other => decide (other = id)) = none := by
      simp only [List.find?_eq_none, decide_eq_true_eq]
      exact fun other hother heq => hid (heq ▸ hother)
    rw [hnone, if_neg hid]

theorem getElem?_put_all {peers : List WireNode} (hids : (peers.map WireNode.id).Nodup)
    (client : BTreeMap Nat V) (id : Nat) :
    (peers.foldl (fun client peer => client.insert peer.id (onPut peer)) client)[id]? =
      match peers.find? (fun peer => peer.id = id) with
      | some peer => some (onPut peer)
      | none => client[id]? := by
  rw [getElem?_foldl_keyed WireNode.id (f := fun peer _ => some (onPut peer))
    (fun client peer k => by rw [Std.ExtTreeMap.getElem?_insert]; simp) hids]
  cases peers.find? (fun peer => peer.id = id) <;> rfl

theorem getElem?_patch_all {changes : List PeerChange}
    (hids : (changes.map PeerChange.nodeId).Nodup) (client : BTreeMap Nat V) (id : Nat) :
    (changes.foldl (fun client change =>
        client.alter change.nodeId (Option.map (onPatch change))) client)[id]? =
      match changes.find? (fun change => change.nodeId = id) with
      | some change => (client[id]?).map (onPatch change)
      | none => client[id]? := by
  rw [getElem?_foldl_keyed PeerChange.nodeId
    (f := fun change => Option.map (onPatch change))
    (fun client change k => by
      rw [Std.ExtTreeMap.getElem?_alter]
      by_cases hk : change.nodeId = k
      · subst hk; simp
      · simp [hk]) hids]
  cases changes.find? (fun change => change.nodeId = id) <;> rfl

end Replay

/-! ## The session's verdict on each peer -/

def entryDiff (sent : SessionPeers) (id : Nat) (next : WireNode) (nextExpiry : Option String) :
    PeerDiff :=
  match sent.peers[id]? with
  | none => .full
  | some prev => diffPeers prev next ((sent.keyExpiry[id]?).join) nextExpiry

def changedBy (sent : SessionPeers) (entry : Nat × WireNode × Option String) : Option WireNode :=
  match entryDiff sent entry.1 entry.2.1 entry.2.2 with
  | .full => some entry.2.1
  | .unchanged | .patch _ => none

def patchBy (sent : SessionPeers) (entry : Nat × WireNode × Option String) : Option PeerChange :=
  match entryDiff sent entry.1 entry.2.1 entry.2.2 with
  | .patch change => some change
  | .full | .unchanged => none

def recordAll (sent : SessionPeers) (entries : List (Nat × WireNode × Option String)) :
    SessionPeers :=
  entries.foldl (fun sent entry => sent.record entry.1 entry.2.1 entry.2.2) sent

theorem diff_peer_eq (deltas : PeerDeltas) (sent : SessionPeers)
    (entry : Nat × WireNode × Option String) :
    diffPeer (deltas, sent) entry =
      ({ deltas with
          changed := deltas.changed ++ (changedBy sent entry).toList
          patches := deltas.patches ++ (patchBy sent entry).toList },
        sent.record entry.1 entry.2.1 entry.2.2) := by
  obtain ⟨id, next, expiry⟩ := entry
  simp only [diffPeer, changedBy, patchBy, entryDiff]
  cases sent.peers[id]? with
  | none => simp
  | some prev =>
    dsimp only
    cases diffPeers prev next ((sent.keyExpiry[id]?).join) expiry <;> simp

theorem entry_diff_record (sent : SessionPeers) {id other : Nat} (hne : other ≠ id)
    (peer next : WireNode) (expiry nextExpiry : Option String) :
    entryDiff (sent.record other peer expiry) id next nextExpiry =
      entryDiff sent id next nextExpiry := by
  simp only [entryDiff, SessionPeers.record, Std.ExtTreeMap.getElem?_insert,
    Std.compare_eq_iff_eq, hne, if_false]

theorem verdicts_congr {entries : List (Nat × WireNode × Option String)} {sent sent' : SessionPeers}
    (h : ∀ e ∈ entries, entryDiff sent' e.1 e.2.1 e.2.2 = entryDiff sent e.1 e.2.1 e.2.2) :
    entries.filterMap (changedBy sent') = entries.filterMap (changedBy sent) ∧
      entries.filterMap (patchBy sent') = entries.filterMap (patchBy sent) := by
  refine ⟨List.filterMap_congr fun e he => ?_, List.filterMap_congr fun e he => ?_⟩
  · rw [changedBy, h e he, changedBy]
  · rw [patchBy, h e he, patchBy]

/-- The loop over the current peers gives each of them the verdict it has at the start. -/
theorem foldl_diff_peer {entries : List (Nat × WireNode × Option String)}
    (hids : (entries.map Prod.fst).Nodup) (deltas : PeerDeltas) (sent : SessionPeers) :
    entries.foldl diffPeer (deltas, sent) =
      ({ deltas with
          changed := deltas.changed ++ entries.filterMap (changedBy sent)
          patches := deltas.patches ++ entries.filterMap (patchBy sent) },
        recordAll sent entries) := by
  induction entries generalizing deltas sent with
  | nil => simp [recordAll]
  | cons entry entries ih =>
    rw [List.map_cons, List.nodup_cons] at hids
    rw [List.foldl_cons, diff_peer_eq, ih hids.2]
    have hother : ∀ e ∈ entries, entry.1 ≠ e.1 := fun e he heq =>
      hids.1 (heq ▸ List.mem_map_of_mem he)
    obtain ⟨hchanged, hpatches⟩ := verdicts_congr fun e he =>
      entry_diff_record sent (hother e he) entry.2.1 e.2.1 entry.2.2 e.2.2
    rw [hchanged, hpatches]
    cases hc : changedBy sent entry <;> cases hp : patchBy sent entry <;>
      simp [hc, hp, recordAll]

/-! ## Comparing a whole session -/

section Session

variable {visible : BTreeSet Nat} {next : BTreeMap Nat (WireNode × Option String)}
  {sent : SessionPeers}

def removedIds (next : BTreeMap Nat (WireNode × Option String)) (sent : SessionPeers) : List Nat :=
  sent.peers.keys.filter fun id => !next.contains id

theorem mem_removed_ids {id : Nat} :
    id ∈ removedIds next sent ↔ id ∈ sent.peers ∧ next[id]? = none := by
  rw [removedIds, List.mem_filter, Std.ExtTreeMap.mem_keys, getElem?_eq_none_iff,
    Std.ExtTreeMap.mem_iff_contains (t := next), Bool.not_eq_true, Bool.not_eq_true']

theorem removed_ids_nodup : (removedIds next sent).Nodup :=
  Std.ExtTreeMap.nodup_keys.filter _

theorem peers_forget_all (ids : List Nat) (sent : SessionPeers) :
    (ids.foldl SessionPeers.forget sent).peers =
      ids.foldl (fun peers id => peers.erase id) sent.peers :=
  (List.foldl_hom SessionPeers.peers fun _ _ => rfl).symm

theorem key_expiry_forget_all (ids : List Nat) (sent : SessionPeers) :
    (ids.foldl SessionPeers.forget sent).keyExpiry =
      ids.foldl (fun keyExpiry id => keyExpiry.erase id) sent.keyExpiry :=
  (List.foldl_hom SessionPeers.keyExpiry fun _ _ => rfl).symm

theorem peers_record_all (entries : List (Nat × WireNode × Option String)) (sent : SessionPeers) :
    (recordAll sent entries).peers =
      entries.foldl (fun peers entry => peers.insert entry.1 entry.2.1) sent.peers :=
  (List.foldl_hom SessionPeers.peers fun _ _ => rfl).symm

theorem key_expiry_record_all (entries : List (Nat × WireNode × Option String))
    (sent : SessionPeers) :
    (recordAll sent entries).keyExpiry =
      entries.foldl (fun keyExpiry entry => keyExpiry.insert entry.1 entry.2.2) sent.keyExpiry :=
  (List.foldl_hom SessionPeers.keyExpiry fun _ _ => rfl).symm

theorem entry_diff_forget (sent : SessionPeers) {id : Nat} (hid : next[id]? ≠ none)
    (peer : WireNode) (expiry : Option String) :
    entryDiff ((removedIds next sent).foldl SessionPeers.forget sent) id peer expiry =
      entryDiff sent id peer expiry := by
  have hkept : id ∉ removedIds next sent := fun h => hid (mem_removed_ids.mp h).2
  simp only [entryDiff, peers_forget_all, key_expiry_forget_all,
    getElem?_erase_all removed_ids_nodup, if_neg hkept]

theorem diff_session_eq :
    diffSession visible next sent =
      ({ removed := removedIds next sent
         changed := next.toList.filterMap (changedBy sent)
         patches := next.toList.filterMap (patchBy sent)
         current := next.toList.map fun entry => entry.2.1
         visible },
        recordAll ((removedIds next sent).foldl SessionPeers.forget sent) next.toList) := by
  have hmem : ∀ entry ∈ next.toList, next[entry.1]? ≠ none := by
    rintro ⟨id, value⟩ hentry hnone
    rw [Std.ExtTreeMap.mem_toList_iff_getElem?_eq_some] at hentry
    exact absurd (hentry.symm.trans hnone) (by simp)
  obtain ⟨hchanged, hpatches⟩ := verdicts_congr fun entry hentry =>
    entry_diff_forget sent (hmem entry hentry) entry.2.1 entry.2.2
  unfold diffSession
  dsimp only
  rw [show (sent.peers.keys.filter fun id => !next.contains id) = removedIds next sent from rfl,
    foldl_diff_peer (nodup_keys_toList next), hchanged, hpatches]
  simp

theorem sent_peers_diff_session (id : Nat) :
    (diffSession visible next sent).2.peers[id]? = (next[id]?).map Prod.fst := by
  rw [diff_session_eq]
  dsimp only
  rw [peers_record_all, getElem?_foldl_keyed Prod.fst (f := fun entry _ => some entry.2.1)
    (fun peers entry k => by rw [Std.ExtTreeMap.getElem?_insert]; simp) (nodup_keys_toList next),
    find?_toList]
  cases hnext : next[id]? with
  | some value => rfl
  | none =>
    rw [peers_forget_all, Option.map_none]
    dsimp only
    rw [getElem?_erase_all removed_ids_nodup]
    split
    case isTrue => rfl
    case isFalse hkept =>
      rw [mem_removed_ids, not_and] at hkept
      exact Std.ExtTreeMap.getElem?_eq_none fun hmem => hkept hmem hnext

theorem sent_key_expiry_diff_session {id : Nat} {value : WireNode × Option String}
    (hnext : next[id]? = some value) :
    (diffSession visible next sent).2.keyExpiry[id]? = some value.2 := by
  rw [diff_session_eq]
  dsimp only
  rw [key_expiry_record_all, getElem?_foldl_keyed Prod.fst (f := fun entry _ => some entry.2.2)
    (fun expiry entry k => by rw [Std.ExtTreeMap.getElem?_insert]; simp) (nodup_keys_toList next),
    find?_toList, hnext]
  rfl

def OwnIds (next : BTreeMap Nat (WireNode × Option String)) : Prop :=
  ∀ (id : Nat) (value : WireNode × Option String), next[id]? = some value → value.1.id = id

theorem OwnIds.changed_by_id (hown : OwnIds next) :
    ∀ entry ∈ next.toList, ∀ peer, changedBy sent entry = some peer → peer.id = entry.1 := by
  rintro ⟨id, value⟩ hentry peer hpeer
  have hid := hown id value (Std.ExtTreeMap.mem_toList_iff_getElem?_eq_some.mp hentry)
  unfold changedBy at hpeer
  split at hpeer <;> cases hpeer
  exact hid

theorem node_id_of_diff_peers {prev peer : WireNode} {prevExpiry expiry : Option String}
    {change : PeerChange} (h : diffPeers prev peer prevExpiry expiry = .patch change) :
    change.nodeId = peer.id := by
  unfold diffPeers at h
  split at h
  · cases h
  · dsimp only at h
    split at h <;> cases h
    rfl

theorem OwnIds.patch_by_id (hown : OwnIds next) :
    ∀ entry ∈ next.toList, ∀ change, patchBy sent entry = some change →
      change.nodeId = entry.1 := by
  rintro ⟨id, value⟩ hentry change hchange
  have hid := hown id value (Std.ExtTreeMap.mem_toList_iff_getElem?_eq_some.mp hentry)
  unfold patchBy at hchange
  split at hchange <;> cases hchange
  rename_i hpatch
  unfold entryDiff at hpatch
  split at hpatch
  · cases hpatch
  · exact (node_id_of_diff_peers hpatch).trans hid

variable {V : Type} (onPut : WireNode → V) (onPatch : PeerChange → V → V)

theorem getD_non_empty_list {α : Type} (items : List α) :
    (ControlPlane.nonEmptyList items).getD [] = items := by
  cases items <;> rfl

/-- A client that knows the peers the session was sent, after the peers that left were removed and
the full objects were put. -/
theorem getElem?_put_changed (hown : OwnIds next) {client : BTreeMap Nat V}
    (hclient : ∀ id : Nat, id ∈ client → id ∈ sent.peers) (id : Nat) :
    ((next.toList.filterMap (changedBy sent)).foldl
        (fun client peer => client.insert peer.id (onPut peer))
        ((removedIds next sent).foldl (fun client id => client.erase id) client))[id]? =
      match next[id]? with
      | none => none
      | some (peer, expiry) =>
        match entryDiff sent id peer expiry with
        | .full => some (onPut peer)
        | .unchanged | .patch _ => client[id]? := by
  have hkeys := nodup_keys_toList next
  rw [getElem?_put_all _ (nodup_filterMap_keyed hown.changed_by_id hkeys),
    getElem?_erase_all removed_ids_nodup, find?_filterMap_keyed hown.changed_by_id hkeys,
    find?_toList]
  cases hnext : next[id]? with
  | none =>
    simp only [Option.map_none, Option.bind_none, ite_eq_left_iff]
    intro hkept
    refine Std.ExtTreeMap.getElem?_eq_none fun hmem => hkept ?_
    exact mem_removed_ids.mpr ⟨hclient id hmem, hnext⟩
  | some value =>
    have hkept : id ∉ removedIds next sent := by
      simp [mem_removed_ids, hnext]
    obtain ⟨peer, expiry⟩ := value
    simp only [Option.map_some, Option.bind_some, changedBy, if_neg hkept]
    cases entryDiff sent id peer expiry <;> rfl

/-- A client that knows the peers the session was sent, after an update: what it keeps for one peer
follows from the session's verdict on that peer. -/
theorem getElem?_replay_peer_delta (hown : OwnIds next) {client : BTreeMap Nat V}
    (hclient : ∀ id : Nat, id ∈ client → id ∈ sent.peers) (batch : ChangeBatch)
    {parts : MapResponse} (hparts : parts.peers = none) (id : Nat) :
    (replay onPut onPatch client
        (ControlPlane.peerDelta batch (diffSession visible next sent).1 parts))[id]? =
      match next[id]? with
      | none => none
      | some (peer, expiry) =>
        match entryDiff sent id peer expiry with
        | .full => some (onPut peer)
        | .unchanged => client[id]?
        | .patch change => (client[id]?).map (onPatch change) := by
  have hkeys := nodup_keys_toList next
  unfold replay ControlPlane.peerDelta
  rw [diff_session_eq]
  simp only [hparts, getD_non_empty_list]
  rw [getElem?_patch_all _ (nodup_filterMap_keyed hown.patch_by_id hkeys),
    getElem?_put_changed _ hown hclient, find?_filterMap_keyed hown.patch_by_id hkeys, find?_toList]
  cases next[id]? with
  | none => rfl
  | some value =>
    obtain ⟨peer, expiry⟩ := value
    simp only [Option.map_some, Option.bind_some, patchBy]
    cases entryDiff sent id peer expiry <;> rfl

theorem getElem?_replay_policy (hown : OwnIds next) {client : BTreeMap Nat V}
    {response : MapResponse} (hpeers : response.peers = some (next.toList.map fun e => e.2.1))
    (id : Nat) :
    (replay onPut onPatch client response)[id]? = (next[id]?).map fun value => onPut value.1 := by
  unfold replay
  rw [hpeers]
  dsimp only
  have hids : ∀ entry ∈ next.toList, ∀ peer, some entry.2.1 = some peer → peer.id = entry.1 := by
    rintro ⟨id, value⟩ hentry peer hpeer
    cases hpeer
    exact hown id value (Std.ExtTreeMap.mem_toList_iff_getElem?_eq_some.mp hentry)
  rw [← List.filterMap_eq_map', getElem?_put_all _ (nodup_filterMap_keyed hids
    (nodup_keys_toList next)), find?_filterMap_keyed hids (nodup_keys_toList next), find?_toList]
  cases next[id]? <;> simp

end Session

end Crabscale.Control
