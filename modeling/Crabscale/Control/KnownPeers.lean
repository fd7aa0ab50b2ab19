import Crabscale.Control.Convergence

/-!
# The peers that an update mentions

Patches are for peers that the client was sent. The online and seen signals are filtered by the
policy only, while the peers are filtered by authorization too: `deltas_mention_known_iff`.
-/

namespace Crabscale.Control

open Rust Proto Policy ControlPlane

def heldAfter (client : BTreeMap Nat WireNode) (response : MapResponse) : BTreeMap Nat WireNode :=
  replay id applyPatch client { response with peersChangedPatch := none }

/-- Every node that the signals and the patches of an update name is a peer that the client
holds. -/
structure MentionsKnown (client : BTreeMap Nat WireNode) (response : MapResponse) : Prop where
  online : ∀ id : Nat, id ∈ response.onlineChange.getD ∅ → id ∈ heldAfter client response
  seen : ∀ id : Nat, id ∈ response.peerSeenChange.getD ∅ → id ∈ heldAfter client response
  patches : ∀ change ∈ response.peersChangedPatch.getD [], change.nodeId ∈ heldAfter client response

def SameKeys (s : Session WireNode) : Prop := ∀ id : Nat, id ∈ s.client ↔ id ∈ s.sent.peers

def Signalled (batch : ChangeBatch) (id : Nat) : Prop :=
  id ∈ batch.onlineChanges.map Prod.fst ∨ id ∈ batch.seenNodes

def SignalsPeers (cp : ControlPlane) (w : World) (own : Node) (batch : ChangeBatch) : Prop :=
  ∀ id, Signalled batch id → (cp.visibleOf w own).contains id = true →
    ∃ stored ∈ w.db.nodes, stored.id = id ∧
      ControlPlane.isPeer own (cp.visibleOf w own) stored = true

/-! ## The keys of the client -/

section Keys

variable {nodeId version : Nat} {s : Session WireNode} {d : Delivery} {own : Node}

theorem SameKeys.is_some_of_diff (h : SameKeys s) {id : Nat} {peer : WireNode}
    {expiry : Option String} {diff : PeerDiff} (hdiff : entryDiff s.sent id peer expiry = diff)
    (hne : diff ≠ .full) : (s.client[id]?).isSome := by
  rw [← Std.ExtTreeMap.mem_iff_isSome_getElem?, h id, Std.ExtTreeMap.mem_iff_isSome_getElem?]
  unfold entryDiff at hdiff
  cases hprev : s.sent.peers[id]? with
  | some prev => rfl
  | none =>
    rw [hprev] at hdiff
    exact absurd hdiff.symm hne

theorem SameKeys.is_some_kept (h : SameKeys s) (policy : Bool) (id : Nat) (peer : WireNode)
    (expiry : Option String) :
    ((peerClient nodeId version).kept s policy id peer expiry).isSome := by
  unfold Client.kept
  cases policy with
  | true => rfl
  | false =>
    simp only [Bool.false_eq_true, if_false]
    cases hdiff : entryDiff s.sent id peer expiry with
    | full => rfl
    | unchanged => exact h.is_some_of_diff hdiff PeerDiff.noConfusion
    | patch change =>
      exact (Option.isSome_map ..).trans (h.is_some_of_diff hdiff PeerDiff.noConfusion)

theorem SameKeys.deliver (h : SameKeys s) (d : Delivery) :
    SameKeys ((peerClient nodeId version).deliver s d) := by
  by_cases hrescan : ∃ own, (peerClient nodeId version).Rescans d own
  · obtain ⟨own, hrescan⟩ := hrescan
    intro id
    rw [Std.ExtTreeMap.mem_iff_isSome_getElem?, Std.ExtTreeMap.mem_iff_isSome_getElem?,
      hrescan.sent_peers, hrescan.getElem?_client (fun id hid => (h id).mp hid)]
    cases (d.server.nextPeers d.world own (peerClient nodeId version).version)[id]? with
    | none => rfl
    | some value => exact iff_of_true (h.is_some_kept ..) rfl
  · rw [Client.deliver_idle _ (not_exists.mp hrescan)]
    exact h

theorem same_keys_follow (peers : List WireNode) (ds : List Delivery) :
    SameKeys ((peerClient nodeId version).follow ((peerClient nodeId version).start peers) ds) := by
  induction ds using List.reverseRecOn with
  | nil => exact fun id => Iff.rfl
  | append_singleton ds d ih =>
    rw [Client.follow_append]
    exact ih.deliver d

end Keys

/-! ## One update -/

section Update

variable {cp : ControlPlane} {w : World} {own : Node} {version : Nat} {s : Session WireNode}
  {batch : ChangeBatch}

theorem mem_held_after (h : SameKeys s) (id : Nat) :
    id ∈ heldAfter s.client (ControlPlane.peerDelta batch
        (cp.peerDeltaOf w own s.sent version).1 (cp.namedPartsOf w batch)) ↔
      ∃ stored ∈ cp.peerRows w own, stored.id = id := by
  have hnext : (cp.nextPeers w own version)[id]?.isSome ↔
      ∃ stored ∈ cp.peerRows w own, stored.id = id := by
    rw [Option.isSome_iff_exists]
    constructor
    · rintro ⟨value, hvalue⟩
      obtain ⟨stored, hstored, hid, -⟩ := getElem?_next_peers.mp hvalue
      exact ⟨stored, hstored, hid⟩
    · rintro ⟨stored, hstored, hid⟩
      exact ⟨_, getElem?_next_peers.mpr ⟨stored, hstored, hid, rfl⟩⟩
  rw [← hnext, Std.ExtTreeMap.mem_iff_isSome_getElem?]
  unfold heldAfter replay peerDelta peerDeltaOf
  rw [diff_session_eq]
  simp only [namedPartsOf, getD_non_empty_list, Option.getD_none, List.foldl_nil]
  rw [getElem?_put_changed _ own_ids_next_peers fun id hid => (h id).mp hid]
  cases (cp.nextPeers w own version)[id]? with
  | none => rfl
  | some value =>
    obtain ⟨peer, expiry⟩ := value
    dsimp only
    cases hdiff : entryDiff s.sent id peer expiry with
    | full => exact Iff.rfl
    | unchanged => exact iff_of_true (h.is_some_of_diff hdiff PeerDiff.noConfusion) rfl
    | patch change => exact iff_of_true (h.is_some_of_diff hdiff PeerDiff.noConfusion) rfl

theorem mem_visible_signals {visible : BTreeSet Nat} {signals : List (Nat × Bool)} {id : Nat} :
    id ∈ (ControlPlane.visibleSignals visible signals).getD ∅ ↔
      id ∈ signals.map Prod.fst ∧ visible.contains id = true := by
  have hfrom : (visibleSignals visible signals).getD ∅ =
      BTreeMap.from (signals.filter fun signal => visible.contains signal.1) := by
    unfold visibleSignals
    dsimp only
    split
    case isTrue hnone =>
      rw [hnone]
      rfl
    case isFalse => rfl
  rw [hfrom, mem_from, List.mem_map, List.mem_map]
  constructor
  · rintro ⟨signal, hsignal, rfl⟩
    obtain ⟨hmem, hvisible⟩ := List.mem_filter.mp hsignal
    exact ⟨⟨signal, hmem, rfl⟩, hvisible⟩
  · rintro ⟨⟨signal, hmem, rfl⟩, hvisible⟩
    exact ⟨signal, List.mem_filter.mpr ⟨hmem, hvisible⟩, rfl⟩

theorem patches_known {change : PeerChange}
    (hchange : change ∈ (cp.peerDeltaOf w own s.sent version).1.patches) :
    ∃ stored ∈ cp.peerRows w own, stored.id = change.nodeId := by
  rw [peerDeltaOf, diff_session_eq] at hchange
  obtain ⟨entry, hentry, hpatch⟩ := List.mem_filterMap.mp hchange
  have hid := own_ids_next_peers.patch_by_id entry hentry change hpatch
  obtain ⟨stored, hstored, hsame, -⟩ := getElem?_next_peers.mp
    (Std.ExtTreeMap.mem_toList_iff_getElem?_eq_some.mp hentry)
  exact ⟨stored, hstored, hsame.trans hid.symm⟩

/-- An update other than a policy change mentions known peers if and only if the batch signals
peers. -/
theorem mentions_known_peer_delta (h : SameKeys s) :
    MentionsKnown s.client (ControlPlane.peerDelta batch
        (cp.peerDeltaOf w own s.sent version).1 (cp.namedPartsOf w batch)) ↔
      SignalsPeers cp w own batch := by
  have hvisible : (cp.peerDeltaOf w own s.sent version).1.visible = cp.visibleOf w own := by
    rw [peerDeltaOf, diff_session_eq]
  have hrows (id : Nat) : (∃ stored ∈ cp.peerRows w own, stored.id = id) ↔
      ∃ stored ∈ w.db.nodes, stored.id = id ∧
        isPeer own (cp.visibleOf w own) stored = true := by
    refine exists_congr fun stored => ?_
    rw [peerRows, List.mem_filter, and_assoc, and_comm (a := stored.id = id)]
  constructor
  · intro hknown id hsignal hseen
    rw [← hrows, ← mem_held_after h]
    obtain honline | hseen' := hsignal
    · refine hknown.online id (mem_visible_signals.mpr ⟨honline, ?_⟩)
      rw [hvisible]
      exact hseen
    · refine hknown.seen id (mem_visible_signals.mpr ⟨?_, ?_⟩)
      · rw [List.map_map]
        exact List.mem_map.mpr ⟨id, hseen', rfl⟩
      · rw [hvisible]
        exact hseen
  · intro hpeers
    refine ⟨fun id hid => ?_, fun id hid => ?_, fun change hchange => ?_⟩
    · obtain ⟨hsignal, hseen⟩ := mem_visible_signals.mp hid
      rw [hvisible] at hseen
      exact (mem_held_after h id).mpr ((hrows id).mpr (hpeers id (.inl hsignal) hseen))
    · obtain ⟨hsignal, hseen⟩ := mem_visible_signals.mp hid
      rw [hvisible] at hseen
      rw [List.map_map, List.mem_map] at hsignal
      obtain ⟨seen, hsignal, rfl⟩ := hsignal
      exact (mem_held_after h seen).mpr ((hrows seen).mpr (hpeers seen (.inr hsignal) hseen))
    · rw [peerDelta, getD_non_empty_list] at hchange
      exact (mem_held_after h _).mpr (patches_known hchange)

theorem not_signalled (hbatch : batch.needsPeerRescan = false) (id : Nat) :
    ¬Signalled batch id := by
  have hnone : ∀ event ∈ batch.events, ChangeBatch.peerEvent event = false := by
    simpa [ChangeBatch.needsPeerRescan] using hbatch
  rintro (honline | hseen)
  · obtain ⟨signal, hsignal, rfl⟩ := List.mem_map.mp honline
    obtain ⟨event, hevent, hsome⟩ := List.mem_filterMap.mp hsignal
    cases event with
    | onlineChanged nodeId online => cases hnone _ hevent
    | _ => cases hsome
  · obtain ⟨event, hevent, hsome⟩ := List.mem_filterMap.mp hseen
    cases event with
    | peerSeen nodeId => cases hnone _ hevent
    | _ => cases hsome

theorem mentions_known_none {client : BTreeMap Nat WireNode} {response : MapResponse}
    (honline : response.onlineChange = none) (hseen : response.peerSeenChange = none)
    (hpatches : response.peersChangedPatch = none) : MentionsKnown client response := by
  refine ⟨fun id hid => ?_, fun id hid => ?_, fun change hchange => ?_⟩
  · rw [honline] at hid
    exact absurd hid Std.ExtTreeMap.not_mem_empty
  · rw [hseen] at hid
    exact absurd hid Std.ExtTreeMap.not_mem_empty
  · rw [hpatches] at hchange
    cases hchange

end Update

/-- An update of a session that followed a stream mentions only peers that its client then holds if
and only if the batch has a policy change or every node that it signals, and that the policy lets
the session see, is an authorized peer. -/
theorem deltas_mention_known_iff (nodeId version : Nat) (peers : List WireNode) (ds : List Delivery)
    (d : Delivery) (response : MapResponse) (sent : SessionPeers)
    (hbuilt : (exec (d.server.buildDelta nodeId d.batch
      ((peerClient nodeId version).follow ((peerClient nodeId version).start peers) ds).sent
      version) d.world).1 = .ok (some response, sent)) :
    MentionsKnown
        ((peerClient nodeId version).follow ((peerClient nodeId version).start peers) ds).client
        response ↔
      d.batch.hasPolicy = true ∨ ∀ own, d.world.db.getNodeById nodeId = some own →
        SignalsPeers d.server d.world own d.batch := by
  have hkeys : SameKeys
      ((peerClient nodeId version).follow ((peerClient nodeId version).start peers) ds) :=
    same_keys_follow peers ds
  obtain ⟨hbatch, rfl⟩ | ⟨own, hrow, hresponse⟩ := build_delta_cases hbuilt
  · exact iff_of_true (mentions_known_none rfl rfl rfl)
      (.inr fun own _ id hsignal => absurd hsignal (not_signalled hbatch id))
  · unfold deltaOf at hresponse
    cases hpolicy : d.batch.hasPolicy with
    | true =>
      rw [hpolicy, if_pos rfl] at hresponse
      rw [← Option.some.inj hresponse]
      exact iff_of_true (mentions_known_none rfl rfl rfl) (.inl rfl)
    | false =>
      rw [hpolicy] at hresponse
      rw [eq_of_non_empty hresponse, mentions_known_peer_delta hkeys]
      simp [hrow]

def cameOnline : ChangeBatch := { events := [.onlineChanged 2 true] }

/-- The node that comes online is a peer that the client is sent. -/
theorem deltas_mention_known_online :
    ∃ response sent, (exec (openServer.buildDelta 1 cameOnline
        ((peerClient 1 113).follow ((peerClient 1 113).start []) []).sent 113)
        (openServer.withStore pairDb stillEnv)).1 = .ok (some response, sent) ∧
      (response.onlineChange.getD ∅).contains 2 = true ∧
      MentionsKnown ((peerClient 1 113).follow ((peerClient 1 113).start []) []).client
        response := by
  have hrow : (openServer.withStore pairDb stillEnv).db.getNodeById 1 = some (plainNode 1) := rfl
  have hbuilt := congrArg Prod.fst
    (build_delta_run openServer (rfl : cameOnline.needsPeerRescan = true) hrow
    ((peerClient 1 113).follow ((peerClient 1 113).start []) []).sent 113)
  have hsome : (openServer.deltaOf (openServer.withStore pairDb stillEnv) (plainNode 1) cameOnline
      ((peerClient 1 113).follow ((peerClient 1 113).start []) []).sent 113).any
        (fun response => (response.onlineChange.getD ∅).contains 2) = true := by
    decide +kernel
  rw [Option.any_eq_true] at hsome
  obtain ⟨response, hresponse, honline⟩ := hsome
  rw [hresponse] at hbuilt
  refine ⟨response, _, hbuilt, honline, (deltas_mention_known_iff 1 113 [] []
    ⟨openServer, openServer.withStore pairDb stillEnv, cameOnline⟩ response _ hbuilt).mpr
    (.inr fun own hown id hsignal _ => ?_)⟩
  cases hrow.symm.trans hown
  obtain hsignal | hsignal := hsignal
  · cases List.mem_singleton.mp hsignal
    exact ⟨_, List.mem_cons_of_mem _ List.mem_cons_self, rfl, by decide +kernel⟩
  · cases hsignal

/-- The second node is not authorized. -/
def unauthorizedDb : Db where
  nodes := [plainNode 1, { plainNode 2 with machineAuthorized := false }]
  valid := by decide

/-- A client without peers is sent the online state of a node that is not authorized, and not the
node. -/
theorem delta_mentions_unauthorized :
    ∃ response sent, (exec (openServer.buildDelta 1 cameOnline (SessionPeers.fromPeers []) 113)
        (openServer.withStore unauthorizedDb stillEnv)).1 = .ok (some response, sent) ∧
      (response.onlineChange.getD ∅).contains 2 = true ∧
      (heldAfter ∅ response).contains 2 = false := by
  have hrow : (openServer.withStore unauthorizedDb stillEnv).db.getNodeById 1 =
    some (plainNode 1) := rfl
  have hbuilt := congrArg Prod.fst
    (build_delta_run openServer (rfl : cameOnline.needsPeerRescan = true) hrow
    (SessionPeers.fromPeers []) 113)
  have hsome : (openServer.deltaOf (openServer.withStore unauthorizedDb stillEnv) (plainNode 1)
      cameOnline (SessionPeers.fromPeers []) 113).any (fun response =>
        (response.onlineChange.getD ∅).contains 2 && !(heldAfter ∅ response).contains 2) =
          true := by
    decide +kernel
  rw [Option.any_eq_true] at hsome
  obtain ⟨response, hresponse, hmentions⟩ := hsome
  rw [hresponse] at hbuilt
  rw [Bool.and_eq_true, Bool.not_eq_true'] at hmentions
  exact ⟨response, _, hbuilt, hmentions⟩

end Crabscale.Control
