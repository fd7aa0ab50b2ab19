import Crabscale.Derp.Routing
import Mathlib.Data.Finset.Card
import Mathlib.Data.Finset.Lattice.Lemmas

/-!
# What clients know about each other

A client learns from the relay's notices which keys are present. When every client reads all its
notices between two registrations or deregistrations, and no newcomer finds more keys than its
channel holds, each client knows all registered keys (`presence_complete`). Notices that do not fit
into a newcomer's channel are lost (`newcomer_misses_keys`).
-/

namespace Crabscale.Derp

open Rust Interaction Function

/-! ## Notices -/

def applyNotice (present : Finset NodeKey) (frame : Frame) : Finset NodeKey :=
  match frame.ty with
  | .peerPresent =>
    match PeerPresentBody.decode frame.payload with
    | .ok body => insert body.key present
    | .error _ => present
  | .peerGone =>
    match PeerGoneBody.decode frame.payload with
    | .ok { key, reason := .disconnected } => present.erase key
    | _ => present
  | _ => present

def presentKeys (frames : List Frame) : Finset NodeKey := frames.foldl applyNotice ∅

def Frame.Neutral (frame : Frame) : Prop := ∀ present, applyNotice present frame = present

theorem Frame.neutral_of_ty {frame : Frame} (hpresent : frame.ty ≠ .peerPresent)
    (hgone : frame.ty ≠ .peerGone) : frame.Neutral := by
  intro present
  unfold applyNotice
  split
  case h_1 h => exact (hpresent h).elim
  case h_2 h => exact (hgone h).elim
  case h_3 => rfl

theorem Frame.neutral_not_here (key : NodeKey) : (Frame.peerGone key .notHere).Neutral := by
  intro present
  simp only [applyNotice, Frame.peerGone, PeerGoneBody.decode_encode]

theorem apply_peer_present (present : Finset NodeKey) (key : NodeKey) :
    applyNotice present (.peerPresent key) = insert key present := by
  obtain ⟨body, hdecode, rfl⟩ := PeerPresentBody.decode_encode_new key PeerPresentFlags.regular
  simp only [applyNotice, Frame.peerPresent, hdecode]

theorem apply_peer_gone (present : Finset NodeKey) (key : NodeKey) :
    applyNotice present (.peerGone key .disconnected) = present.erase key := by
  simp only [applyNotice, Frame.peerGone, PeerGoneBody.decode_encode]

theorem present_keys_append (frames more : List Frame) :
    presentKeys (frames ++ more) = more.foldl applyNotice (presentKeys frames) :=
  List.foldl_append

theorem present_keys_neutral {frame : Frame} (h : frame.Neutral) (frames more : List Frame) :
    presentKeys (frames ++ [frame] ++ more) = presentKeys (frames ++ more) := by
  rw [present_keys_append, present_keys_append, present_keys_append, List.foldl_cons, h,
    List.foldl_nil]

theorem foldl_peer_present (present : Finset NodeKey) (keys : List NodeKey) :
    (keys.map Frame.peerPresent).foldl applyNotice present = present ∪ keys.toFinset := by
  induction keys generalizing present with
  | nil => simp
  | cons key keys ih =>
    rw [List.map_cons, List.foldl_cons, apply_peer_present, ih, List.toFinset_cons,
      Finset.insert_union, Finset.union_insert]

theorem card_present_keys (frames : List Frame) : (presentKeys frames).card ≤ frames.length := by
  have hnotice (present : Finset NodeKey) (frame : Frame) :
      (applyNotice present frame).card ≤ present.card + 1 := by
    unfold applyNotice
    split
    · split
      · exact Finset.card_insert_le _ _
      · exact Nat.le_succ _
    · split
      · exact Finset.card_erase_le.trans (Nat.le_succ _)
      · exact Nat.le_succ _
    · exact Nat.le_succ _
  have hfold (present : Finset NodeKey) :
      (frames.foldl applyNotice present).card ≤ present.card + frames.length := by
    induction frames generalizing present with
    | nil => rfl
    | cons frame frames ih =>
      have hfirst := hnotice present frame
      have hrest := ih (applyNotice present frame)
      rw [List.foldl_cons, List.length_cons]
      omega
  exact (hfold ∅).trans_eq (by rw [Finset.card_empty, Nat.zero_add])

/-! ## The invariant -/

def World.stream (w : World) (t : TaskId) : List Frame := w.written t ++ (w.channels t).queue

def Task.Before : Task → Prop
  | absent | awaitingInfo | accepted _ | admitted _ => True
  | running .. | leaving .. | closed => False

/-- Before a client registers its channel is empty and it knows nothing. From then on what it knows
and what waits for it are the keys that are registered, apart from its own. -/
structure Informed (w : World) : Prop where
  before : ∀ t, (w.tasks t).Before → (w.channels t).queue = [] ∧ presentKeys (w.written t) = ∅
  complete : ∀ t key, w.Registered t key → (w.channels t).closed = false → ∀ other, other ≠ key →
    (other ∈ presentKeys (w.stream t) ↔ ∃ t', w.Registered t' other)

/-- Every registered client read all its frames. -/
def Drained (w : World) : Prop :=
  ∀ t key, w.Registered t key → (w.channels t).queue = [] ∧ (w.channels t).closed = false

def Quiesced (w : World) : Event → Prop
  | .register .. | .deregister _ => Drained w
  | _ => True

def FitsChannel (w : World) : Event → Prop
  | .register t _ => ∀ login, w.tasks t = .admitted login →
      (w.registry.byKey.keys.filter (· ≠ login.nodeKey)).length ≤ outboundCapacity
  | _ => True

variable {relay : Relay} {es : List Event} {w : World} {e : Event}

theorem Drained.told (h : Drained w) {t : TaskId} {key : NodeKey} (ht : w.Registered t key)
    (frame : Frame) :
    presentKeys (w.written t ++ ((w.channels t).trySend outboundCapacity frame).1.queue) =
      applyNotice (presentKeys (w.stream t)) frame := by
  obtain ⟨hqueue, hopen⟩ := h t key ht
  rw [Channel.try_send_room ⟨hopen, by rw [hqueue]; decide⟩]
  show presentKeys (w.written t ++ ((w.channels t).queue ++ [frame])) = _
  rw [← List.append_assoc, present_keys_append]
  rfl

theorem Informed.start : Informed {} :=
  ⟨fun _ _ => ⟨rfl, rfl⟩, fun _ _ ⟨_, hentry⟩ => nomatch hentry⟩

variable {t : TaskId}

theorem Leaves.present_keys {w' : World} (h : Leaves relay es w e t w')
    (hopen : (w'.channels t).closed = false) :
    (w.channels t).closed = false ∧ presentKeys (w'.stream t) = presentKeys (w.stream t) := by
  unfold Leaves at h
  unfold World.stream
  generalize w'.channels t = channel, w'.written t = written at h hopen
  have hsend {frame : Frame} (hneutral : frame.Neutral) :
      presentKeys (w.written t ++ ((w.channels t).trySend outboundCapacity frame).1.queue) =
        presentKeys (w.written t ++ (w.channels t).queue) := by
    by_cases hroom : (w.channels t).HasRoom outboundCapacity
    · rw [Channel.try_send_room hroom]
      show presentKeys (w.written t ++ ((w.channels t).queue ++ [frame])) = _
      rw [← List.append_assoc, ← List.append_nil (w.written t ++ (w.channels t).queue ++ [frame]),
        present_keys_neutral hneutral, List.append_nil]
    · rw [Channel.try_send_full hroom]
  cases h with
  | same => exact ⟨hopen, rfl⟩
  | packet _ _ =>
    rw [Channel.try_send_closed] at hopen
    exact ⟨hopen, hsend (Frame.neutral_of_ty (by nofun) (by nofun))⟩
  | nowhere _ =>
    rw [Channel.try_send_closed] at hopen
    exact ⟨hopen, hsend (Frame.neutral_not_here _)⟩
  | keepalive _ =>
    rw [Channel.try_send_closed] at hopen
    exact ⟨hopen, hsend (Frame.neutral_of_ty (by nofun) (by nofun))⟩
  | login hty =>
    refine ⟨hopen, present_keys_neutral (Frame.neutral_of_ty ?_ ?_) _ _⟩ <;>
      obtain hty | hty := hty <;> rw [hty] <;> nofun
  | wrote hqueue =>
    refine ⟨hopen, ?_⟩
    rw [hqueue, List.append_assoc]
    rfl
  | broke => cases hopen

theorem Leaves.before {w' : World} (h : Leaves relay es w e t w')
    (hnot : ∀ key, ¬w.Registered t key) (hqueue : (w.channels t).queue = []) :
    (w'.channels t).queue = [] ∧ presentKeys (w'.written t) = presentKeys (w.written t) := by
  unfold Leaves at h
  generalize w'.channels t = channel, w'.written t = written at h
  cases h with
  | same => exact ⟨hqueue, rfl⟩
  | packet hregistered _ | nowhere hregistered | keepalive hregistered =>
    exact (hnot _ hregistered).elim
  | @login frame hty =>
    have hneutral : frame.Neutral := by
      refine Frame.neutral_of_ty ?_ ?_ <;> obtain hty | hty := hty <;> rw [hty] <;> nofun
    refine ⟨hqueue, ?_⟩
    rw [← List.append_nil (w.written t ++ [frame]), present_keys_neutral hneutral,
      List.append_nil]
  | wrote hmore =>
    rw [hqueue] at hmore
    cases hmore
  | broke => exact ⟨rfl, rfl⟩

theorem Task.Before.conn_eq_none {task : Task} (h : task.Before) : task.conn = none := by
  cases task <;> first | rfl | exact h.elim

theorem Sound.not_registered (h : Sound relay es w) (ht : (w.tasks t).Before)
    (key : NodeKey) : ¬w.Registered t key := by
  rintro ⟨id, hentry⟩
  obtain ⟨login, hconn, -⟩ := (h.conns _ _).mp hentry
  exact nomatch ht.conn_eq_none.symm.trans hconn

theorem OffStep.before {w' : World} (h : OffStep relay e w w') (ht : (w'.tasks t).Before) :
    (w.tasks t).Before := by
  obtain hsame | ⟨s, task, hmoves, hupdate⟩ := h.tasks
  · rwa [hsame] at ht
  rw [hupdate] at ht
  by_cases hts : t = s
  · subst hts
    rw [update_self] at ht
    cases hmoves with
    | leaving | closed => exact ht.elim
    | awaitingInfo hs | accepted hs | admitted hs =>
      rw [hs]
      trivial
  · rwa [update_of_ne hts] at ht

theorem Informed.off_registry (h : Informed w) (hsound : Sound relay es w) (he : e.OffRegistry) :
    Informed (relay.step e w) := by
  have hstep : OffStep relay e w (relay.step e w) := Relay.step_off he
  have hregistered (t : TaskId) (key : NodeKey) :
      (relay.step e w).Registered t key ↔ w.Registered t key := by
    unfold World.Registered
    rw [hstep.registry]
  constructor
  · intro t ht
    obtain ⟨hqueue, hnothing⟩ := h.before t (hstep.before ht)
    have hnot := hsound.not_registered (hstep.before ht)
    obtain ⟨hempty, hsame⟩ := (hsound.leaves he t).before hnot hqueue
    exact ⟨hempty, hsame.trans hnothing⟩
  · intro t key ht hopen other hother
    obtain ⟨hopen, hsame⟩ := (hsound.leaves he t).present_keys hopen
    simp only [hregistered] at ht ⊢
    rw [hsame]
    exact h.complete t key ht hopen other hother

/-! ## Registration -/

theorem Sound.mem_keys (h : Sound relay es w) {key : NodeKey} :
    key ∈ w.registry.byKey.keys ↔ ∃ t, w.Registered t key := by
  have hmem : key ∈ w.registry.byKey.keys ↔ ∃ ids, w.registry.byKey.lookup key = some ids := by
    rw [← AList.mem_keys, ← AList.lookup_isSome, Option.isSome_iff_exists]
  rw [hmem]
  constructor
  · rintro ⟨ids, hids⟩
    obtain ⟨id, hid⟩ := HashSet.exists_mem (h.registry.nonempty key ids hids)
    obtain ⟨t, hentry⟩ := (h.registry.same id key).mpr ⟨ids, hids, hid⟩
    exact ⟨t, id, hentry⟩
  · rintro ⟨t, id, hentry⟩
    obtain ⟨ids, hids, -⟩ := (h.registry.same id key).mp ⟨t, hentry⟩
    exact ⟨ids, hids⟩

theorem register_task {login : Login} (order : List NodeKey) (ht : w.tasks t = .admitted login) :
    (Relay.registerTask t order w).registry = w.registry.add w.nextId ⟨login.nodeKey, t⟩ ∧
      (Relay.registerTask t order w).written = w.written ∧
      (Relay.registerTask t order w).tasks = update w.tasks t (.running login w.nextId) := by
  unfold Relay.registerTask
  simp only [ht]
  exact ⟨rfl, rfl, rfl⟩

theorem Sound.registered_register (h : Sound relay es w) {login : Login}
    (order : List NodeKey) (ht : w.tasks t = .admitted login) (t' : TaskId) (key : NodeKey) :
    (Relay.registerTask t order w).Registered t' key ↔
      w.Registered t' key ∨ t' = t ∧ key = login.nodeKey := by
  unfold World.Registered
  rw [(register_task order ht).1]
  constructor
  · rintro ⟨id, hentry⟩
    rw [Registry.lookup_conns_add] at hentry
    split at hentry
    · cases hentry
      exact .inr ⟨rfl, rfl⟩
    · exact .inl ⟨id, hentry⟩
  · rintro (⟨id, hentry⟩ | ⟨rfl, rfl⟩)
    · refine ⟨id, ?_⟩
      rw [Registry.lookup_conns_add, if_neg (h.drawn id _ hentry).ne]
      exact hentry
    · exact ⟨w.nextId, by rw [Registry.lookup_conns_add, if_pos rfl]⟩

theorem Informed.register (h : Informed w) (hsound : Sound relay es w)
    {order : List NodeKey} (horder : order.Perm w.registry.byKey.keys) (hdrained : Drained w)
    (hfits : FitsChannel w (.register t order)) : Informed (Relay.registerTask t order w) := by
  by_cases hadmitted : ∃ login, w.tasks t = .admitted login
  case neg =>
    have hsame : Relay.registerTask t order w = w := by
      unfold Relay.registerTask
      split
      case h_1 login ht => exact (hadmitted ⟨login, ht⟩).elim
      case h_2 => rfl
    rw [hsame]
    exact h
  obtain ⟨login, ht⟩ := hadmitted
  have hchannels := hsound.register_channels ht horder
  have hregistered := hsound.registered_register order ht
  obtain ⟨-, hwritten, htasks⟩ := register_task order ht
  have hbefore : (w.tasks t).Before := by rw [ht]; trivial
  constructor
  · intro t' ht'
    rw [htasks] at ht'
    by_cases hne : t' = t
    · rw [hne, update_self] at ht'
      exact ht'.elim
    rw [update_of_ne hne] at ht'
    have hout : t' ∉ w.registry.outs := fun hmem => by
      obtain ⟨key, hkey⟩ := World.mem_outs.mp hmem
      exact hsound.not_registered ht' key hkey
    rw [hwritten, hchannels, if_neg hne, if_neg hout]
    exact h.before t' ht'
  · intro t' key ht' hopen other hother
    unfold World.stream
    rw [hwritten, hchannels]
    simp only [hregistered]
    obtain ht' | ⟨rfl, rfl⟩ := (hregistered t' key).mp ht'
    · -- A client from before hears of the newcomer.
      have hne : t' ≠ t := fun heq => hsound.not_registered hbefore key (heq ▸ ht')
      have hout : t' ∈ w.registry.outs := World.mem_outs.mpr ⟨key, ht'⟩
      have hknown := h.complete t' key ht' (hdrained t' key ht').2 other hother
      rw [if_neg hne, if_pos hout, hdrained.told ht', apply_peer_present, Finset.mem_insert, hknown]
      constructor
      · rintro (rfl | ⟨t'', ht''⟩)
        · exact ⟨t, .inr ⟨rfl, rfl⟩⟩
        · exact ⟨t'', .inl ht''⟩
      · rintro ⟨t'', ht'' | ⟨-, rfl⟩⟩
        · exact .inr ⟨t'', ht''⟩
        · exact .inl rfl
    · -- The newcomer hears of all others.
      have hall : (order.filter (· ≠ login.nodeKey)).length ≤ outboundCapacity :=
        ((horder.filter _).length_eq).trans_le (hfits login ht)
      rw [if_pos rfl, Channel.send_each_queue rfl, List.nil_append, present_keys_append,
        (h.before t' hbefore).2]
      rw [List.take_of_length_le (by rw [List.length_map]; exact hall), foldl_peer_present,
        Finset.empty_union, List.mem_toFinset, List.mem_filter, horder.mem_iff, hsound.mem_keys]
      simp only [decide_eq_true_eq]
      constructor
      · rintro ⟨⟨t'', ht''⟩, -⟩
        exact ⟨t'', .inl ht''⟩
      · rintro ⟨t'', ht'' | ⟨-, rfl⟩⟩
        · exact ⟨⟨t'', ht''⟩, hother⟩
        · exact (hother rfl).elim

/-! ## Deregistration -/

section Deregister

variable {t : TaskId} {login : Login} {id : ClientId}

theorem Sound.registered_deregister (h : Sound relay es w) (ht : w.tasks t = .leaving login id)
    (t' : TaskId) (key : NodeKey) :
    (Relay.deregisterTask t w).Registered t' key ↔ w.Registered t' key ∧ t' ≠ t := by
  have hentry : w.registry.conns.lookup id = some ⟨login.nodeKey, t⟩ :=
    h.entry_of_conn (by rw [ht]; rfl)
  unfold World.Registered
  rw [(h.deregister_task ht).1]
  constructor
  · rintro ⟨id', hentry'⟩
    rw [Registry.lookup_conns_remove] at hentry'
    split at hentry'
    · cases hentry'
    case isFalse hne =>
      exact ⟨⟨id', hentry'⟩, fun heq => hne (h.conns_inj hentry' hentry heq)⟩
  · rintro ⟨⟨id', hentry'⟩, hne⟩
    refine ⟨id', ?_⟩
    rw [Registry.lookup_conns_remove, if_neg]
    · exact hentry'
    · rintro rfl
      cases hentry.symm.trans hentry'
      exact hne rfl

theorem Sound.was_last_iff (h : Sound relay es w) (ht : w.tasks t = .leaving login id) :
    (w.registry.remove id ⟨login.nodeKey, t⟩).2 = true ↔
      ∀ t', ¬(Relay.deregisterTask t w).Registered t' login.nodeKey := by
  have hentry : w.registry.conns.lookup id = some ⟨login.nodeKey, t⟩ :=
    h.entry_of_conn (by rw [ht]; rfl)
  have hafter := h.registry.remove hentry
  obtain ⟨ids, hids, -⟩ := h.registry.listed hentry
  have hlookup := Registry.lookup_by_key_remove hids id login.nodeKey
  rw [if_pos rfl] at hlookup
  rw [Registry.remove_was_last hids]
  unfold World.Registered
  rw [(h.deregister_task ht).1]
  constructor
  · rintro hempty t' ⟨id', hentry'⟩
    obtain ⟨left, hleft, -⟩ := (hafter.same id' login.nodeKey).mp ⟨t', hentry'⟩
    rw [hlookup, if_pos hempty] at hleft
    cases hleft
  · intro hnone
    by_contra hsome
    rw [if_neg hsome] at hlookup
    obtain ⟨id', hid'⟩ := HashSet.exists_mem (Bool.eq_false_iff.mpr hsome)
    obtain ⟨t', hentry'⟩ := (hafter.same id' login.nodeKey).mpr ⟨_, hlookup, hid'⟩
    exact hnone t' ⟨id', hentry'⟩

end Deregister

theorem Informed.deregister (h : Informed w) (hsound : Sound relay es w)
    (hdrained : Drained w) : Informed (Relay.deregisterTask t w) := by
  by_cases hleaving : ∃ login id, w.tasks t = .leaving login id
  case neg =>
    have hsame : Relay.deregisterTask t w = w := by
      unfold Relay.deregisterTask
      split
      case h_1 login id ht => exact (hleaving ⟨login, id, ht⟩).elim
      case h_2 => rfl
    rw [hsame]
    exact h
  obtain ⟨login, id, ht⟩ := hleaving
  have hchannels := hsound.deregister_channels ht
  have hregistered := hsound.registered_deregister ht
  have hlast := hsound.was_last_iff ht
  obtain ⟨hregistry, hwritten, htasks⟩ := hsound.deregister_task ht
  have hkey : w.Registered t login.nodeKey :=
    ⟨id, hsound.entry_of_conn (by rw [ht]; rfl)⟩
  have hone {key : NodeKey} (hother : w.Registered t key) : key = login.nodeKey := by
    obtain ⟨id, hentry⟩ := hkey
    obtain ⟨id', hentry'⟩ := hother
    obtain rfl := hsound.conns_inj hentry hentry' rfl
    cases hentry.symm.trans hentry'
    rfl
  have houts (t' : TaskId) : t' ∈ (w.registry.remove id ⟨login.nodeKey, t⟩).1.outs ↔
      ∃ key, w.Registered t' key ∧ t' ≠ t := by
    rw [← hregistry, World.mem_outs]
    exact exists_congr fun key => hregistered t' key
  constructor
  · intro t' ht'
    rw [htasks] at ht'
    by_cases hne : t' = t
    · rw [hne, update_self] at ht'
      exact ht'.elim
    rw [update_of_ne hne] at ht'
    have hout : t' ∉ (w.registry.remove id ⟨login.nodeKey, t⟩).1.outs := fun hmem => by
      obtain ⟨key, hregistered, -⟩ := (houts t').mp hmem
      exact hsound.not_registered ht' key hregistered
    rw [hwritten, hchannels, if_neg fun hboth => hout hboth.2]
    exact h.before t' ht'
  · intro t' key ht' _ other hother
    obtain ⟨ht', hne⟩ := (hregistered t' key).mp ht'
    have hknown := h.complete t' key ht' (hdrained t' key ht').2 other hother
    have hout := (houts t').mpr ⟨key, ht', hne⟩
    unfold World.stream
    rw [hwritten, hchannels]
    by_cases hgone : (w.registry.remove id ⟨login.nodeKey, t⟩).2 = true
    · -- The key is gone, and the client hears of it.
      rw [if_pos ⟨hgone, hout⟩, hdrained.told ht', apply_peer_gone, Finset.mem_erase, hknown]
      constructor
      · rintro ⟨hnode, t'', ht''⟩
        exact ⟨t'', (hregistered t'' other).mpr ⟨ht'', fun heq => hnode (hone (heq ▸ ht''))⟩⟩
      · rintro ⟨t'', ht''⟩
        exact ⟨fun heq => hlast.mp hgone t'' (heq ▸ ht''), t'', ((hregistered t'' other).mp ht'').1⟩
    · -- Somebody is left under the key, and nothing is said.
      rw [if_neg fun hboth => hgone hboth.1]
      change other ∈ presentKeys (w.stream t') ↔ _
      rw [hknown]
      constructor
      · rintro ⟨t'', ht''⟩
        by_cases hleft : t'' = t
        · obtain rfl := hone (hleft ▸ ht'')
          exact not_forall_not.mp fun hnone => hgone (hlast.mpr hnone)
        · exact ⟨t'', (hregistered t'' other).mpr ⟨ht'', hleft⟩⟩
      · rintro ⟨t'', ht''⟩
        exact ⟨t'', ((hregistered t'' other).mp ht'').1⟩

/-! ## Runs -/

theorem Informed.step (h : Informed w) (hsound : Sound relay es w) (he : Allowed w e)
    (hquiesced : Quiesced w e) (hfits : FitsChannel w e) : Informed (relay.step e w) := by
  cases e with
  | register t order => exact h.register hsound he hquiesced hfits
  | deregister t => exact h.deregister hsound hquiesced
  | _ => exact h.off_registry hsound trivial

theorem Runs.informed (h : Runs relay (fun w e => Quiesced w e ∧ FitsChannel w e) es w) :
    Informed w := by
  induction h with
  | start => exact .start
  | step hrun he hmeets ih => exact ih.step hrun.sound he hmeets.1 hmeets.2

/-- In every run in which clients read all their frames between two registrations or
deregistrations, and no newcomer finds more other keys than its channel holds, each client that read
all its frames knows just the other keys that are registered. -/
theorem presence_complete
    (hrun : Runs relay (fun w e => Quiesced w e ∧ FitsChannel w e) es w) (hdrained : Drained w) :
    ∀ t key, w.Registered t key → ∀ other, other ≠ key →
      (other ∈ presentKeys (w.written t) ↔ ∃ t', w.Registered t' other) := by
  intro t key ht other hother
  obtain ⟨hqueue, hopen⟩ := hdrained t key ht
  have hknown := hrun.informed.complete t key ht hopen other hother
  rw [World.stream, hqueue, List.append_nil] at hknown
  exact hknown

/-! ## Examples -/

theorem drained_iff : Drained w ↔
    ∀ t ∈ w.registry.outs, (w.channels t).queue = [] ∧ (w.channels t).closed = false := by
  constructor
  · intro h t ht
    obtain ⟨key, hkey⟩ := World.mem_outs.mp ht
    exact h t key hkey
  · intro h t key hkey
    exact h t (World.mem_outs.mpr ⟨key, hkey⟩)

instance : Decidable (Drained w) := decidable_of_iff' _ drained_iff

def pairJoin : List Event :=
  join 1 (keyOf 1) [] ++ join 2 (keyOf 2) [keyOf 1] ++ [.write 1 true, .write 2 true]

def pairJoined : World := plainRelay.runEvents pairJoin {}

theorem runs_pair_joined :
    Runs plainRelay (fun w e => Quiesced w e ∧ FitsChannel w e) pairJoin pairJoined := by
  refine Runs.start.events pairJoin ?_
  refine ⟨trivial, ⟨trivial, trivial⟩, trivial, ⟨trivial, trivial⟩, trivial, ⟨trivial, trivial⟩,
    by decide +kernel, ⟨drained_iff.mpr (by decide +kernel), ?_⟩, trivial, ⟨trivial, trivial⟩,
    trivial, ⟨trivial, trivial⟩, trivial, ⟨trivial, trivial⟩, by decide +kernel,
    ⟨drained_iff.mpr (by decide +kernel), ?_⟩, trivial, ⟨trivial, trivial⟩, trivial,
    ⟨trivial, trivial⟩, trivial⟩
  · rintro login ⟨⟩
    decide +kernel
  · rintro login ⟨⟩
    decide +kernel

/-- The first client knows of the second. -/
theorem presence_pair_joined :
    pairJoined.Registered 1 (keyOf 1) ∧ keyOf 2 ∈ presentKeys (pairJoined.written 1) := by
  have hfirst : pairJoined.Registered 1 (keyOf 1) := ⟨1, by decide +kernel⟩
  have hsecond : pairJoined.Registered 2 (keyOf 2) := ⟨2, by decide +kernel⟩
  refine ⟨hfirst, ?_⟩
  exact (presence_complete runs_pair_joined (by decide +kernel) 1 (keyOf 1) hfirst (keyOf 2)
    (by decide)).mpr ⟨2, hsecond⟩

/-! ## A crowd -/

def World.readAll (w : World) (t : TaskId) : World :=
  { w with
    channels := Function.update w.channels t { w.channels t with queue := [] }
    written := Function.update w.written t (w.stream t) }

theorem Runs.read_all (h : Runs relay Quiesced es w) (t : TaskId) :
    ∃ es, Runs relay Quiesced es (w.readAll t) := by
  generalize hqueue : (w.channels t).queue = queue
  induction queue generalizing es w with
  | nil =>
    have hsame : w.readAll t = w := by
      have hchannel : { w.channels t with queue := [] } = w.channels t := by rw [← hqueue]
      unfold World.readAll World.stream
      rw [hchannel, hqueue, List.append_nil, update_eq_self, update_eq_self]
    exact ⟨es, hsame.symm ▸ h⟩
  | cons frame queue ih =>
    have hnext : relay.step (.write t true) w =
        { w with
          channels := update w.channels t { w.channels t with queue }
          written := update w.written t (w.written t ++ [frame]) } := by
      show Relay.writeNext t true w = _
      unfold Relay.writeNext
      rw [hqueue]
      rfl
    have hrun := h.step (e := .write t true) trivial trivial
    rw [hnext] at hrun
    obtain ⟨es', hes'⟩ := ih hrun (by
      show (update w.channels t _ t).queue = queue
      rw [update_self])
    refine ⟨es', ?_⟩
    convert hes' using 1
    unfold World.readAll World.stream
    simp only [update_self, update_idem, hqueue, List.append_assoc,
      List.singleton_append]

def World.readAllOf (w : World) (ts : List TaskId) : World := ts.foldl World.readAll w

theorem Runs.read_all_of (h : Runs relay Quiesced es w) (ts : List TaskId) :
    ∃ es, Runs relay Quiesced es (w.readAllOf ts) := by
  induction ts generalizing es w with
  | nil => exact ⟨es, h⟩
  | cons t ts ih =>
    obtain ⟨es, h⟩ := h.read_all t
    exact ih h

theorem World.read_all_of_spec (w : World) (ts : List TaskId) :
    (w.readAllOf ts).registry = w.registry ∧ (w.readAllOf ts).tasks = w.tasks ∧
      (∀ t, ((w.readAllOf ts).channels t).closed = (w.channels t).closed) ∧
      (∀ t, (w.readAllOf ts).stream t = w.stream t) ∧
      (∀ t, (w.channels t).queue = [] → ((w.readAllOf ts).channels t).queue = []) ∧
      ∀ t ∈ ts, ((w.readAllOf ts).channels t).queue = [] := by
  induction ts generalizing w with
  | nil => exact ⟨rfl, rfl, fun _ => rfl, fun _ => rfl, fun _ h => h, List.forall_mem_nil _⟩
  | cons s ts ih =>
    obtain ⟨hregistry, htasks, hclosed, hstream, hempty, hread⟩ := ih (w.readAll s)
    have hself : (w.readAll s).channels s = { w.channels s with queue := [] } :=
      update_self ..
    have hother {t : TaskId} (ht : t ≠ s) : (w.readAll s).channels t = w.channels t :=
      update_of_ne ht ..
    refine ⟨hregistry, htasks, fun t => (hclosed t).trans ?_, fun t => (hstream t).trans ?_,
      fun t ht => hempty t ?_, List.forall_mem_cons.mpr ⟨hempty s ?_, hread⟩⟩
    · by_cases ht : t = s
      · rw [ht, hself]
      · rw [hother ht]
    · by_cases ht : t = s
      · rw [ht, World.stream, hself, List.append_nil]
        exact update_self ..
      · rw [World.stream, hother ht, World.stream]
        exact congrArg (· ++ _) (update_of_ne ht ..)
    · by_cases ht' : t = s
      · rw [ht', hself]
      · rw [hother ht', ht]
    · rw [hself]

theorem accept_plain (key : NodeKey) :
    plainRelay.acceptClientInfo 0 (ClientInfoBody.encodePrefix { key, nonce := zeroNonce }) =
      some key := by
  unfold Relay.acceptClientInfo
  rw [ClientInfoBody.decode_prefix_encode]
  rfl

def World.loggedIn (w : World) (t : TaskId) (key : NodeKey) : World :=
  { w with
    tasks := Function.update w.tasks t (.admitted
      { client := ClientInfoBody.encodePrefix { key, nonce := zeroNonce }
        now := 0
        nodeKey := key })
    written := Function.update w.written t (w.written t ++
      [⟨.serverKey, ServerKeyBody.encode { key := plainRelay.serverPublic }⟩] ++
      [⟨.serverInfo, ServerInfoBody.encodePrefix { nonce := zeroNonce } ++ []⟩]) }

theorem run_log_in (ht : w.tasks t = .absent) (key : NodeKey) :
    plainRelay.runEvents (logIn t key) w = w.loggedIn t key := by
  show plainRelay.writeServerInfo t zeroNonce true
    (plainRelay.readFrame t _ 0 (plainRelay.connect t true w)) = _
  have hconnect : plainRelay.connect t true w =
      (w.wrote t ⟨.serverKey, ServerKeyBody.encode { key := plainRelay.serverPublic }⟩).setTask t
        .awaitingInfo := by
    unfold Relay.connect
    simp only [ht]
    rfl
  rw [hconnect]
  unfold Relay.readFrame
  simp only [World.setTask, update_self, accept_plain, if_true]
  unfold Relay.writeServerInfo
  simp only [update_self]
  show World.setTask (World.wrote _ t _) t _ = _
  simp only [World.setTask, World.wrote, World.loggedIn, update_self, update_idem]

def World.joined (w : World) (n : Nat) : World :=
  Relay.registerTask n w.registry.byKey.keys (w.loggedIn n (keyOf n))

def crowd : Nat → World
  | 0 => {}
  | n + 1 => ((crowd n).joined n).readAllOf ((crowd n).joined n).registry.outs

/-- The first clients are registered, and read everything. -/
structure Crowded (n : Nat) (w : World) : Prop where
  runs : ∃ es, Runs plainRelay Quiesced es w
  drained : Drained w
  registered : ∀ t key, w.Registered t key ↔ t < n ∧ key = keyOf t
  absent : ∀ t, n ≤ t → w.tasks t = .absent
  unwritten : ∀ t, n ≤ t → w.stream t = []
  receiving : ∀ t, (w.channels t).closed = false

namespace Crowded

theorem start : Crowded 0 {} where
  runs := ⟨[], .start⟩
  drained _ _ h := nomatch h.choose_spec
  registered _ _ := iff_of_false (fun ⟨_, hentry⟩ => nomatch hentry) fun h => nomatch h.1
  absent _ _ := rfl
  unwritten _ _ := rfl
  receiving _ := rfl

variable {n : Nat} (h : Crowded n w)

include h

theorem run_logged_in : ∃ es, Runs plainRelay Quiesced es (w.loggedIn n (keyOf n)) := by
  obtain ⟨es, hrun⟩ := h.runs
  have hmore := hrun.events (logIn n (keyOf n))
    ⟨trivial, trivial, trivial, trivial, trivial, trivial, trivial⟩
  rw [run_log_in (h.absent n le_rfl)] at hmore
  exact ⟨_, hmore⟩

theorem joined_channels (t : TaskId) :
    (w.joined n).channels t =
      if t = n then
        Channel.sendEach outboundCapacity
          ((w.registry.byKey.keys.filter (· ≠ keyOf n)).map Frame.peerPresent) {}
      else if t ∈ w.registry.outs then
        ((w.channels t).trySend outboundCapacity (.peerPresent (keyOf n))).1
      else w.channels t := by
  obtain ⟨es, hrun⟩ := h.run_logged_in
  exact hrun.sound.register_channels (update_self ..) (.refl _) t

theorem joined_registered (t : TaskId) (key : NodeKey) :
    (w.joined n).Registered t key ↔ t < n + 1 ∧ key = keyOf t := by
  obtain ⟨es, hrun⟩ := h.run_logged_in
  have hregistered := hrun.sound.registered_register (t := n) w.registry.byKey.keys
    (update_self ..) t key
  have hold : (w.loggedIn n (keyOf n)).Registered t key ↔ t < n ∧ key = keyOf t :=
    h.registered t key
  rw [hold] at hregistered
  refine hregistered.trans ?_
  constructor
  · rintro (⟨ht, rfl⟩ | ⟨rfl, rfl⟩)
    · exact ⟨Nat.lt_succ_of_lt ht, rfl⟩
    · exact ⟨Nat.lt_succ_self _, rfl⟩
  · rintro ⟨ht, rfl⟩
    obtain ht | rfl := Nat.lt_succ_iff_lt_or_eq.mp ht
    · exact .inl ⟨ht, rfl⟩
    · exact .inr ⟨rfl, rfl⟩

theorem joined_same :
    (w.joined n).written = (w.loggedIn n (keyOf n)).written ∧
      ∀ t, n < t → (w.joined n).tasks t = .absent := by
  obtain ⟨-, hwritten, htasks⟩ := register_task (w := w.loggedIn n (keyOf n))
    w.registry.byKey.keys (update_self ..)
  refine ⟨hwritten, fun t hlt => ?_⟩
  rw [World.joined, htasks, update_of_ne hlt.ne']
  exact (update_of_ne hlt.ne' ..).trans (h.absent t hlt.le)

theorem next : Crowded (n + 1) ((w.joined n).readAllOf (w.joined n).registry.outs) := by
  obtain ⟨hregistry, htasks, hclosed, hstream, -, hread⟩ :=
    (w.joined n).read_all_of_spec (w.joined n).registry.outs
  obtain ⟨hwritten, habsent⟩ := h.joined_same
  have hregistered (t : TaskId) (key : NodeKey) :
      ((w.joined n).readAllOf (w.joined n).registry.outs).Registered t key ↔
        t < n + 1 ∧ key = keyOf t := by
    unfold World.Registered
    rw [hregistry]
    exact h.joined_registered t key
  have hreceiving (t : TaskId) :
      (((w.joined n).readAllOf (w.joined n).registry.outs).channels t).closed = false := by
    rw [hclosed, h.joined_channels]
    split
    · exact Channel.send_each_closed _
    split
    · exact Channel.try_send_closed.trans (h.receiving t)
    · exact h.receiving t
  refine ⟨?_, fun t key ht => ⟨?_, hreceiving t⟩, hregistered, fun t ht => ?_, fun t ht => ?_,
    hreceiving⟩
  · obtain ⟨es, hrun⟩ := h.run_logged_in
    have hdrained : Drained (w.loggedIn n (keyOf n)) := h.drained
    have hjoined := hrun.step (e := .register n w.registry.byKey.keys) (.refl _) hdrained
    exact hjoined.read_all_of _
  · obtain ⟨id, hentry⟩ := ht
    rw [hregistry] at hentry
    exact hread t (World.mem_outs.mpr ⟨key, id, hentry⟩)
  · rw [htasks]
    exact habsent t ht
  · have hne : t ≠ n := (Nat.lt_of_succ_le ht).ne'
    have hout : t ∉ w.registry.outs := fun hmem => by
      obtain ⟨key, hkey⟩ := World.mem_outs.mp hmem
      have hlt := ((h.registered t key).mp hkey).1
      exact Nat.lt_irrefl t (hlt.trans (Nat.lt_of_succ_le ht))
    rw [hstream, World.stream, hwritten, h.joined_channels, if_neg hne, if_neg hout]
    show update w.written n _ t ++ _ = []
    rw [update_of_ne hne]
    exact h.unwritten t (Nat.le_of_succ_le ht)

theorem card_present_keys_le :
    (presentKeys (((w.joined n).readAllOf (w.joined n).registry.outs).written n)).card ≤
      outboundCapacity := by
  obtain ⟨-, -, -, hstream, -, hread⟩ := (w.joined n).read_all_of_spec (w.joined n).registry.outs
  have hjoined := (h.joined_registered n (keyOf n)).mpr ⟨Nat.lt_succ_self n, rfl⟩
  have hqueue := hread n (World.mem_outs.mpr ⟨_, hjoined⟩)
  have hknown := hstream n
  rw [World.stream, hqueue, List.append_nil, World.stream, h.joined_same.1, h.joined_channels,
    if_pos rfl, Channel.send_each_queue rfl, List.nil_append] at hknown
  have hlogin : (w.loggedIn n (keyOf n)).written n = [] ++
      [⟨.serverKey, ServerKeyBody.encode { key := plainRelay.serverPublic }⟩] ++
      [⟨.serverInfo, ServerInfoBody.encodePrefix { nonce := zeroNonce } ++ []⟩] := by
    have hnone : w.written n = [] := (List.append_eq_nil_iff.mp (h.unwritten n le_rfl)).1
    show update w.written n (w.written n ++ _ ++ _) n = _
    rw [update_self, hnone]
  rw [hknown, hlogin, present_keys_neutral (Frame.neutral_of_ty (by nofun) (by nofun)),
    present_keys_neutral (Frame.neutral_of_ty (by nofun) (by nofun)), List.nil_append]
  exact (card_present_keys _).trans (List.length_take_le _ _)

end Crowded

theorem crowded (n : Nat) : Crowded n (crowd n) := by
  induction n with
  | zero => exact .start
  | succ n ih => exact ih.next

theorem key_of_inj {m n : Nat} (hm : m < 65536) (hn : n < 65536) (h : keyOf m = keyOf n) :
    m = n := by
  have hbytes := List.append_cancel_right (congrArg (fun key : NodeKey => key.toBytes.val) h)
  have hvalue : UInt16.ofNat m = UInt16.ofNat n := by
    obtain ⟨hhigh, hlow⟩ := List.cons_eq_cons.mp hbytes
    rw [← from_be_bytes16_to_be_bytes16 (UInt16.ofNat m), hhigh, List.head_eq_of_cons_eq hlow,
      from_be_bytes16_to_be_bytes16]
  have hnat := congrArg UInt16.toNat hvalue
  rwa [UInt16.toNat_ofNat', UInt16.toNat_ofNat', Nat.mod_eq_of_lt hm, Nat.mod_eq_of_lt hn] at hnat

theorem crowd_misses {m n : Nat} (hmany : outboundCapacity < n) (hn : n < 65536) (hm : m = n + 1) :
    (∃ es, Runs plainRelay Quiesced es (crowd m)) ∧ Drained (crowd m) ∧
      (crowd m).Registered n (keyOf n) ∧
      ∃ other, other ≠ keyOf n ∧ other ∉ presentKeys ((crowd m).written n) ∧
        ∃ t, (crowd m).Registered t other := by
  subst hm
  have hcrowded := crowded (n + 1)
  have hkeys : ((Finset.range n).image keyOf).card = n := by
    rw [Finset.card_image_of_injOn, Finset.card_range]
    intro i hi j hj heq
    exact key_of_inj ((Finset.mem_range.mp hi).trans hn) ((Finset.mem_range.mp hj).trans hn) heq
  have hknown : (presentKeys ((crowd (n + 1)).written n)).card ≤ outboundCapacity :=
    (crowded n).card_present_keys_le
  obtain ⟨other, hmem, hmissed⟩ :=
    Finset.exists_mem_notMem_of_card_lt_card (hknown.trans_lt (hmany.trans_eq hkeys.symm))
  obtain ⟨i, hi, rfl⟩ := Finset.mem_image.mp hmem
  have hi := Finset.mem_range.mp hi
  exact ⟨hcrowded.runs, hcrowded.drained,
    (hcrowded.registered n (keyOf n)).mpr ⟨Nat.lt_succ_self n, rfl⟩, keyOf i,
    fun heq => hi.ne (key_of_inj (hi.trans hn) hn heq), hmissed, i,
    (hcrowded.registered i (keyOf i)).mpr ⟨Nat.lt_succ_of_lt hi, rfl⟩⟩

/-- Clients with 257 keys are registered, and a client with another key joins. When all read all
their frames, each time, the newcomer does not know about one of the keys. -/
theorem newcomer_misses_keys :
    (∃ es, Runs plainRelay Quiesced es (crowd 258)) ∧ Drained (crowd 258) ∧
      (crowd 258).Registered 257 (keyOf 257) ∧
      ∃ other, other ≠ keyOf 257 ∧ other ∉ presentKeys ((crowd 258).written 257) ∧
        ∃ t, (crowd 258).Registered t other :=
  crowd_misses (by decide) (by decide) rfl

end Crabscale.Derp
