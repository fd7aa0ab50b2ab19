import Crabscale.Derp.Relay

/-!
# What the relay delivers

In every run the two maps of the registry describe the connections of the tasks that registered and
did not leave yet, each logged in under its key (`Sound`). So a delivered packet was sent by a
connection that holds its key, and each packet goes once to every connection of its destination that
has room, and nowhere else (`relay_authentic_and_exact`).
-/

namespace Crabscale.Derp

open Rust Interaction Function

/-! ## The registry -/

namespace Registry

/-- The two maps describe the same connections, and no key is left without one. -/
structure Consistent (reg : Registry) : Prop where
  same : ∀ id key, (∃ out, reg.conns.lookup id = some ⟨key, out⟩) ↔
    ∃ ids, reg.byKey.lookup key = some ids ∧ id ∈ ids
  nonempty : ∀ key ids, reg.byKey.lookup key = some ids → ids.isEmpty = false

variable {reg : Registry} {id : ClientId} {entry : ConnEntry}

theorem Consistent.empty : Consistent {} := by
  refine ⟨fun id key => ?_, nofun⟩
  constructor
  · rintro ⟨out, ⟨⟩⟩
  · rintro ⟨ids, ⟨⟩, -⟩

theorem lookup_conns_add (other : ClientId) :
    (reg.add id entry).conns.lookup other =
      if other = id then some entry else reg.conns.lookup other := by
  unfold add
  split
  case isTrue h => exact h ▸ AList.lookup_insert _
  case isFalse h => exact AList.lookup_insert_ne h

theorem lookup_by_key_add (key : NodeKey) :
    (reg.add id entry).byKey.lookup key =
      if key = entry.node then some (((reg.byKey.lookup key).getD .empty).insert id)
      else reg.byKey.lookup key := by
  unfold add
  split
  case isTrue h => exact h ▸ AList.lookup_insert _
  case isFalse h => exact AList.lookup_insert_ne h

theorem Consistent.add (h : reg.Consistent) (hfresh : reg.conns.lookup id = none) :
    (reg.add id entry).Consistent := by
  constructor
  · intro other key
    rw [lookup_conns_add, lookup_by_key_add]
    by_cases hother : other = id
    · subst hother
      have hunlisted : ¬∃ ids, reg.byKey.lookup key = some ids ∧ other ∈ ids := by
        rw [← h.same, hfresh]
        rintro ⟨_, ⟨⟩⟩
      rw [if_pos rfl]
      split
      case isTrue hkey =>
        subst hkey
        exact iff_of_true ⟨entry.out, rfl⟩ ⟨_, rfl, HashSet.mem_insert.mpr (.inl rfl)⟩
      case isFalse hkey =>
        refine iff_of_false ?_ hunlisted
        rintro ⟨out, ⟨⟩⟩
        exact hkey rfl
    · rw [if_neg hother, h.same]
      split
      case isFalse => rfl
      case isTrue hkey =>
        cases hids : reg.byKey.lookup key with
        | none => simp [hother]
        | some ids => simp [hother]
  · intro key ids hids
    rw [lookup_by_key_add] at hids
    split at hids
    · cases hids
      exact HashSet.is_empty_eq_false (HashSet.mem_insert.mpr (.inl rfl))
    · exact h.nonempty key ids hids

theorem lookup_conns_remove (other : ClientId) :
    (reg.remove id entry).1.conns.lookup other =
      if other = id then none else reg.conns.lookup other := by
  have herase : (reg.conns.erase id).lookup other =
      if other = id then none else reg.conns.lookup other := by
    split
    case isTrue h => exact h ▸ AList.lookup_erase ..
    case isFalse h => exact AList.lookup_erase_ne h
  unfold remove
  split
  · split <;> exact herase
  · exact herase

theorem lookup_by_key_remove {ids : HashSet ClientId}
    (hids : reg.byKey.lookup entry.node = some ids) (id : ClientId) (key : NodeKey) :
    (reg.remove id entry).1.byKey.lookup key =
      if key = entry.node then (if (ids.remove id).isEmpty then none else some (ids.remove id))
      else reg.byKey.lookup key := by
  unfold remove
  simp only [hids]
  split <;> split
  case isTrue.isTrue _ h => exact h ▸ AList.lookup_erase ..
  case isTrue.isFalse _ h => exact AList.lookup_erase_ne h
  case isFalse.isTrue _ h => exact h ▸ AList.lookup_insert _
  case isFalse.isFalse _ h => exact AList.lookup_insert_ne h

theorem remove_was_last {ids : HashSet ClientId} (hids : reg.byKey.lookup entry.node = some ids) :
    (reg.remove id entry).2 = (ids.remove id).isEmpty := by
  unfold remove
  simp only [hids]
  split
  case isTrue h => exact h.symm
  case isFalse h => exact (Bool.eq_false_iff.mpr h).symm

theorem Consistent.listed (h : reg.Consistent) (hentry : reg.conns.lookup id = some entry) :
    ∃ ids, reg.byKey.lookup entry.node = some ids ∧ id ∈ ids :=
  (h.same id entry.node).mp ⟨entry.out, hentry⟩

theorem Consistent.remove (h : reg.Consistent) (hentry : reg.conns.lookup id = some entry) :
    (reg.remove id entry).1.Consistent := by
  obtain ⟨ids, hids, hid⟩ := h.listed hentry
  constructor
  · intro other key
    rw [lookup_conns_remove, lookup_by_key_remove hids]
    by_cases hkey : key = entry.node
    · subst hkey
      have hmem : (∃ out, reg.conns.lookup other = some ⟨entry.node, out⟩) ↔ other ∈ ids := by
        rw [h.same, hids]
        simp
      rw [if_pos rfl]
      by_cases hother : other = id
      · rw [if_pos hother]
        refine iff_of_false (by rintro ⟨_, ⟨⟩⟩) ?_
        rintro ⟨left, hleft, hmem⟩
        split at hleft <;> cases hleft
        exact (HashSet.mem_remove.mp hmem).1 hother
      · rw [if_neg hother, hmem]
        constructor
        · intro hother'
          have hleft := HashSet.mem_remove.mpr ⟨hother, hother'⟩
          rw [HashSet.is_empty_eq_false hleft]
          exact ⟨_, rfl, hleft⟩
        · rintro ⟨left, hleft, hmem⟩
          split at hleft <;> cases hleft
          exact (HashSet.mem_remove.mp hmem).2
    · rw [if_neg hkey, ← h.same]
      by_cases hother : other = id
      · subst hother
        rw [if_pos rfl, hentry]
        refine iff_of_false (by rintro ⟨_, ⟨⟩⟩) ?_
        rintro ⟨out, ⟨⟩⟩
        exact hkey rfl
      · rw [if_neg hother]
  · intro key left hleft
    rw [lookup_by_key_remove hids] at hleft
    split at hleft
    · split at hleft <;> cases hleft
      exact Bool.eq_false_iff.mpr ‹_›
    · exact h.nonempty key left hleft

end Registry

/-! ## Logins -/

structure Admitted (relay : Relay) (login : Login) (key : NodeKey) : Prop where
  opened : ∃ nonce payload, ClientInfoBody.decodePrefix login.client = .ok { key, nonce } ∧
    relay.ext.openClientInfo key relay.serverSecret nonce
      (login.client.drop ClientInfoBody.prefixLen) = .ok payload
  verified : ∀ verify, relay.verify = some verify → verify login.now key = true

theorem Relay.accept_client_info_admitted {relay : Relay} {login : Login}
    (h : relay.acceptClientInfo login.now login.client = some login.nodeKey) :
    Admitted relay login login.nodeKey := by
  unfold acceptClientInfo at h
  split at h
  · cases h
  case h_2 key nonce hprefix =>
  dsimp only at h
  split at h
  · cases h
  case h_2 payload hopen =>
  split at h
  case h_1 verify hverify =>
    split at h
    · cases h
    case isFalse hyes =>
    cases h
    refine ⟨⟨nonce, payload, hprefix, hopen⟩, fun other hother => ?_⟩
    cases hverify.symm.trans hother
    simpa using hyes
  case h_2 hnone =>
    cases h
    exact ⟨⟨nonce, payload, hprefix, hopen⟩, fun _ hsome => nomatch hnone.symm.trans hsome⟩

/-! ## The invariant -/

def Task.login : Task → Option Login
  | accepted login | admitted login | running login _ | leaving login _ => some login
  | absent | awaitingInfo | closed => none

def Task.conn : Task → Option (Login × ClientId)
  | running login id | leaving login id => some (login, id)
  | absent | awaitingInfo | accepted _ | admitted _ | closed => none

/-- The registry holds the connections of the tasks that registered and did not leave, under ids
that were drawn, and each task logged in with a frame that it read. -/
structure Sound (relay : Relay) (es : List Event) (w : World) : Prop where
  registry : w.registry.Consistent
  conns : ∀ id entry, w.registry.conns.lookup id = some entry ↔
    ∃ login, (w.tasks entry.out).conn = some (login, id) ∧ login.nodeKey = entry.node
  drawn : ∀ id entry, w.registry.conns.lookup id = some entry → id < w.nextId
  logins : ∀ t login, (w.tasks t).login = some login →
    Admitted relay login login.nodeKey ∧ .frame t ⟨.clientInfo, login.client⟩ login.now ∈ es

variable {relay : Relay} {es : List Event} {w : World} {e : Event} {t : TaskId} {login : Login}
  {id : ClientId}

namespace Sound

theorem start : Sound relay [] {} := by
  refine ⟨.empty, fun id entry => ?_, nofun, nofun⟩
  constructor
  · rintro ⟨⟩
  · rintro ⟨login, ⟨⟩, -⟩

theorem later (h : Sound relay es w) : Sound relay (es ++ [e]) w where
  __ := h
  logins t login hlogin := (h.logins t login hlogin).imp_right (List.mem_append_left _)

theorem congr (h : Sound relay es w) {w' : World} (hregistry : w'.registry = w.registry)
    (htasks : w'.tasks = w.tasks) (hnext : w'.nextId = w.nextId) : Sound relay es w' := by
  refine ⟨hregistry ▸ h.registry, ?_, ?_, ?_⟩
  · rw [hregistry, htasks]
    exact h.conns
  · rw [hregistry, hnext]
    exact h.drawn
  · rw [htasks]
    exact h.logins

theorem logins_update (h : Sound relay es w) {task : Task}
    (hlogin : ∀ login, task.login = some login → Admitted relay login login.nodeKey ∧
      .frame t ⟨.clientInfo, login.client⟩ login.now ∈ es) (other : TaskId) (login : Login)
    (hother : (update w.tasks t task other).login = some login) :
    Admitted relay login login.nodeKey ∧
      .frame other ⟨.clientInfo, login.client⟩ login.now ∈ es := by
  by_cases ht : other = t
  · subst ht
    rw [update_self] at hother
    exact hlogin login hother
  · rw [update_of_ne ht] at hother
    exact h.logins other login hother

theorem set_task (h : Sound relay es w) {task : Task} (hconn : task.conn = (w.tasks t).conn)
    (hlogin : ∀ login, task.login = some login → Admitted relay login login.nodeKey ∧
      .frame t ⟨.clientInfo, login.client⟩ login.now ∈ es) : Sound relay es (w.setTask t task) := by
  refine ⟨h.registry, fun id entry => ?_, h.drawn, h.logins_update hlogin⟩
  have hsame : ((w.setTask t task).tasks entry.out).conn = (w.tasks entry.out).conn := by
    show (update w.tasks t task entry.out).conn = _
    by_cases hout : entry.out = t
    · rw [hout, update_self, hconn]
    · rw [update_of_ne hout]
  rw [hsame]
  exact h.conns id entry

theorem conns_inj (h : Sound relay es w) {id' : ClientId} {entry entry' : ConnEntry}
    (hentry : w.registry.conns.lookup id = some entry)
    (hentry' : w.registry.conns.lookup id' = some entry') (hout : entry.out = entry'.out) :
    id = id' := by
  obtain ⟨login, hconn, -⟩ := (h.conns id entry).mp hentry
  obtain ⟨login', hconn', -⟩ := (h.conns id' entry').mp hentry'
  rw [hout, hconn'] at hconn
  cases hconn
  rfl

theorem nodup_outs (h : Sound relay es w) : w.registry.outs.Nodup :=
  HashMap.nodup_values_map fun _ _ _ _ hentry hentry' hout => h.conns_inj hentry hentry' hout

theorem register (h : Sound relay es w) {order : List NodeKey} (ht : w.tasks t = .admitted login) :
    Sound relay es ((w.register login.nodeKey t order).1.setTask t (.running login w.nextId)) := by
  have hfresh : w.registry.conns.lookup w.nextId = none := by
    refine Option.eq_none_iff_forall_ne_some.mpr fun entry hentry => ?_
    exact Nat.lt_irrefl _ (h.drawn w.nextId entry hentry)
  refine ⟨h.registry.add hfresh, fun id entry => ?_, fun id entry hentry => ?_,
    h.logins_update fun login' hlogin' => h.logins t login' (ht ▸ hlogin')⟩
  · show (w.registry.add w.nextId ⟨login.nodeKey, t⟩).conns.lookup id = some entry ↔
      ∃ login', (update w.tasks t (.running login w.nextId) entry.out).conn =
        some (login', id) ∧ login'.nodeKey = entry.node
    rw [Registry.lookup_conns_add]
    by_cases hout : entry.out = t
    · rw [hout, update_self]
      constructor
      · intro hentry
        split at hentry
        case isTrue hid => exact ⟨login, hid ▸ rfl, by cases hentry; rfl⟩
        case isFalse =>
          obtain ⟨login', hconn, -⟩ := (h.conns id entry).mp hentry
          rw [hout, ht] at hconn
          cases hconn
      · rintro ⟨login', hconn, hnode⟩
        cases hconn
        rw [if_pos rfl, hnode, ← hout]
    · rw [update_of_ne hout]
      split
      case isTrue hid =>
        refine iff_of_false (fun heq => hout (by cases heq; rfl)) ?_
        rintro ⟨login', hconn, hnode⟩
        have hentry := (h.conns id entry).mpr ⟨login', hconn, hnode⟩
        rw [hid, hfresh] at hentry
        cases hentry
      case isFalse => exact h.conns id entry
  · change (w.registry.add w.nextId ⟨login.nodeKey, t⟩).conns.lookup id = some entry at hentry
    rw [Registry.lookup_conns_add] at hentry
    split at hentry
    case isTrue hid =>
      subst hid
      exact Nat.lt_succ_self w.nextId
    case isFalse => exact Nat.lt_succ_of_lt (h.drawn id entry hentry)

theorem entry_of_conn (h : Sound relay es w) (ht : (w.tasks t).conn = some (login, id)) :
    w.registry.conns.lookup id = some ⟨login.nodeKey, t⟩ :=
  (h.conns id ⟨login.nodeKey, t⟩).mpr ⟨login, ht, rfl⟩

theorem deregister_eq (h : Sound relay es w) (ht : (w.tasks t).conn = some (login, id)) :
    w.deregister id =
      { w with
        registry := (w.registry.remove id ⟨login.nodeKey, t⟩).1
        channels :=
          if (w.registry.remove id ⟨login.nodeKey, t⟩).2 then
            (sendAll outboundCapacity (.peerGone login.nodeKey .disconnected)
              (w.registry.remove id ⟨login.nodeKey, t⟩).1.outs w.channels).1
          else w.channels } := by
  unfold World.deregister
  rw [h.entry_of_conn ht]

theorem deregister (h : Sound relay es w) (ht : (w.tasks t).conn = some (login, id)) :
    Sound relay es ((w.deregister id).setTask t .closed) := by
  have hentry := h.entry_of_conn ht
  rw [h.deregister_eq ht]
  refine ⟨h.registry.remove hentry, fun other entry => ?_, fun other entry hother => ?_,
    h.logins_update nofun⟩
  · show (w.registry.remove id ⟨login.nodeKey, t⟩).1.conns.lookup other = some entry ↔
      ∃ login', (update w.tasks t .closed entry.out).conn = some (login', other) ∧
        login'.nodeKey = entry.node
    rw [Registry.lookup_conns_remove]
    by_cases hout : entry.out = t
    · rw [hout, update_self]
      refine iff_of_false ?_ (by rintro ⟨_, ⟨⟩, _⟩)
      split
      · exact nofun
      case isFalse hid => exact fun hother => hid (h.conns_inj hother hentry hout)
    · rw [update_of_ne hout, ← h.conns other entry]
      split
      case isFalse => rfl
      case isTrue hid =>
        subst hid
        refine iff_of_false nofun fun hother => hout ?_
        cases hentry.symm.trans hother
        rfl
  · change (w.registry.remove id ⟨login.nodeKey, t⟩).1.conns.lookup other = some entry at hother
    rw [Registry.lookup_conns_remove] at hother
    split at hother
    · cases hother
    · exact h.drawn other entry hother

end Sound

theorem World.route_send_packet_same (w : World) (source : ClientId) (dest : NodeKey)
    (packet : List UInt8) :
    (w.routeSendPacket source dest packet).registry = w.registry ∧
      (w.routeSendPacket source dest packet).tasks = w.tasks ∧
      (w.routeSendPacket source dest packet).nextId = w.nextId := by
  unfold routeSendPacket
  split
  · exact ⟨rfl, rfl, rfl⟩
  split
  · exact ⟨rfl, rfl, rfl⟩
  split
  · exact ⟨rfl, rfl, rfl⟩
  dsimp only
  split <;> exact ⟨rfl, rfl, rfl⟩

theorem World.handle_data_frame_same (w : World) (id : ClientId) (frame : Frame) :
    (w.handleDataFrame id frame).1.registry = w.registry ∧
      (w.handleDataFrame id frame).1.tasks = w.tasks ∧
      (w.handleDataFrame id frame).1.nextId = w.nextId := by
  unfold handleDataFrame
  split <;> try exact ⟨rfl, rfl, rfl⟩
  split
  · exact ⟨rfl, rfl, rfl⟩
  · exact w.route_send_packet_same ..

def Event.OffRegistry : Event → Prop
  | register .. | deregister _ => False
  | _ => True

/-- How a task goes on when no connection is registered or taken out. -/
inductive Moves (relay : Relay) (e : Event) (w : World) (s : TaskId) : Task → Prop where
  | awaitingInfo (hs : w.tasks s = .absent) : Moves relay e w s .awaitingInfo
  | accepted {login : Login} (hs : w.tasks s = .awaitingInfo)
      (hadmitted : Admitted relay login login.nodeKey)
      (hread : e = .frame s ⟨.clientInfo, login.client⟩ login.now) :
      Moves relay e w s (.accepted login)
  | admitted {login : Login} (hs : w.tasks s = .accepted login) :
      Moves relay e w s (.admitted login)
  | leaving {login : Login} {id : ClientId} (hs : w.tasks s = .running login id) :
      Moves relay e w s (.leaving login id)
  | closed (hs : (w.tasks s).conn = none) : Moves relay e w s .closed

/-- The registry is the same, and at most one task went on. -/
structure OffStep (relay : Relay) (e : Event) (w w' : World) : Prop where
  registry : w'.registry = w.registry
  nextId : w'.nextId = w.nextId
  tasks : w'.tasks = w.tasks ∨
    ∃ s task, Moves relay e w s task ∧ w'.tasks = update w.tasks s task

theorem OffStep.refl : OffStep relay e w w := ⟨rfl, rfl, .inl rfl⟩

theorem OffStep.set_task {s : TaskId} {task : Task} (h : Moves relay e w s task) :
    OffStep relay e w (w.setTask s task) :=
  ⟨rfl, rfl, .inr ⟨s, task, h, rfl⟩⟩

theorem Relay.step_off (he : e.OffRegistry) : OffStep relay e w (relay.step e w) := by
  cases e with
  | register s order => exact he.elim
  | deregister s => exact he.elim
  | connect s written =>
    show OffStep relay _ w (relay.connect s written w)
    unfold connect
    split
    case h_2 => exact .refl
    case h_1 hs =>
    split
    · exact ⟨rfl, rfl, .inr ⟨s, _, .awaitingInfo hs, rfl⟩⟩
    · exact .set_task (.closed (by rw [hs]; rfl))
  | frame s frame now =>
    show OffStep relay _ w (relay.readFrame s frame now w)
    unfold readFrame
    split
    case h_1 hs =>
      split
      case isFalse => exact .refl
      case isTrue htype =>
      split
      case h_1 nodeKey haccept =>
        refine .set_task (.accepted hs (accept_client_info_admitted haccept) ?_)
        obtain ⟨ty, payload⟩ := frame
        cases htype
        rfl
      case h_2 => exact .set_task (.closed (by rw [hs]; rfl))
    case h_2 login id hs =>
      obtain ⟨hregistry, htasks, hnext⟩ := w.handle_data_frame_same id frame
      dsimp only
      split
      · exact ⟨hregistry, hnext, .inl htasks⟩
      · exact ⟨hregistry, hnext, .inr ⟨s, _, .leaving hs, congrArg (update · s _) htasks⟩⟩
    case h_3 => exact .refl
  | readEnd s =>
    show OffStep relay _ w (readEnd s w)
    unfold readEnd
    split
    case h_1 hs => exact .set_task (.closed (by rw [hs]; rfl))
    case h_2 hs => exact .set_task (.leaving hs)
    case h_3 => exact .refl
  | serverInfo s nonce written =>
    show OffStep relay _ w (relay.writeServerInfo s nonce written w)
    unfold writeServerInfo
    split
    case h_2 => exact .refl
    case h_1 login hs =>
    have hclosed (e : Event) : OffStep relay e w (w.setTask s .closed) :=
      .set_task (.closed (by rw [hs]; rfl))
    split
    · exact hclosed _
    split
    · exact ⟨rfl, rfl, .inr ⟨s, _, .admitted hs, rfl⟩⟩
    · exact hclosed _
  | keepalive s =>
    have hkeepalive (id : ClientId) : OffStep relay (.keepalive s) w (w.sendKeepalive id) := by
      unfold World.sendKeepalive
      split
      · exact .refl
      · exact ⟨rfl, rfl, .inl rfl⟩
    show OffStep relay _ w (keepaliveTask s w)
    unfold keepaliveTask
    split
    · exact hkeepalive _
    · exact hkeepalive _
    · exact .refl
  | write s written =>
    show OffStep relay _ w (writeNext s written w)
    unfold writeNext
    split
    · exact .refl
    · split <;> exact ⟨rfl, rfl, .inl rfl⟩

theorem Sound.off_step (h : Sound relay es w) {w' : World} (hstep : OffStep relay e w w') :
    Sound relay (es ++ [e]) w' := by
  have hlater : Sound relay (es ++ [e]) w := h.later
  obtain ⟨hregistry, hnext, htasks | ⟨s, task, hmoves, htasks⟩⟩ := hstep
  · exact hlater.congr hregistry htasks hnext
  refine Sound.congr (w := w.setTask s task) (hlater.set_task ?_ fun login hlogin => ?_) hregistry
    htasks hnext
  · cases hmoves with
    | closed hs => exact hs.symm
    | awaitingInfo hs | accepted hs | admitted hs | leaving hs =>
      rw [hs]
      rfl
  · cases hmoves with
    | awaitingInfo | closed => cases hlogin
    | accepted _ hadmitted hread =>
      cases hlogin
      exact ⟨hadmitted, List.mem_append_right _ (List.mem_singleton.mpr hread.symm)⟩
    | admitted hs | leaving hs => exact hlater.logins s login (by rw [hs]; exact hlogin)

theorem Sound.step (h : Sound relay es w) (e : Event) :
    Sound relay (es ++ [e]) (relay.step e w) := by
  cases e with
  | register t order =>
    show Sound relay _ (Relay.registerTask t order w)
    unfold Relay.registerTask
    split
    case h_2 => exact h.later
    case h_1 login ht =>
      have hchannel : Sound relay (es ++ [.register t order])
          { w with channels := update w.channels t {} } := h.later.congr rfl rfl rfl
      exact hchannel.register ht
  | deregister t =>
    show Sound relay _ (Relay.deregisterTask t w)
    unfold Relay.deregisterTask
    split
    case h_2 => exact h.later
    case h_1 login id ht => exact h.later.deregister (by rw [ht]; rfl)
  | connect | frame | readEnd | serverInfo | keepalive | write =>
    exact h.off_step (Relay.step_off trivial)

theorem Runs.sound {C : World → Event → Prop} (h : Runs relay C es w) : Sound relay es w := by
  induction h with
  | start => exact .start
  | step _ _ _ ih => exact ih.step _

/-! ## Channels -/

def World.Registered (w : World) (t : TaskId) (key : NodeKey) : Prop :=
  ∃ id, w.registry.conns.lookup id = some ⟨key, t⟩

theorem World.mem_outs : t ∈ w.registry.outs ↔ ∃ key, w.Registered t key := by
  unfold Registry.outs
  rw [List.mem_map]
  constructor
  · rintro ⟨⟨key, out⟩, hentry, rfl⟩
    obtain ⟨id, hid⟩ := HashMap.mem_values.mp hentry
    exact ⟨key, id, hid⟩
  · rintro ⟨key, id, hid⟩
    exact ⟨⟨key, t⟩, HashMap.mem_values.mpr ⟨id, hid⟩, rfl⟩

variable {s : TaskId} {packet : List UInt8}

namespace Sound

theorem mem_outs_of (h : Sound relay es w) {key : NodeKey} {ids : HashSet ClientId}
    (hids : w.registry.byKey.lookup key = some ids) :
    t ∈ w.registry.outsOf ids.items ↔ w.Registered t key := by
  have hlisted (id : ClientId) : (∃ out, w.registry.conns.lookup id = some ⟨key, out⟩) ↔
      id ∈ ids := by
    rw [h.registry.same, hids]
    simp
  unfold Registry.outsOf
  rw [List.mem_filterMap]
  constructor
  · rintro ⟨id, hid, hout⟩
    obtain ⟨out, hentry⟩ := (hlisted id).mpr hid
    rw [hentry] at hout
    cases hout
    exact ⟨id, hentry⟩
  · rintro ⟨id, hentry⟩
    exact ⟨id, (hlisted id).mp ⟨t, hentry⟩, by rw [hentry]; rfl⟩

theorem nodup_outs_of (h : Sound relay es w) (ids : HashSet ClientId) :
    (w.registry.outsOf ids.items).Nodup := by
  refine ids.nodup.filterMap fun id id' t hid hid' => ?_
  obtain ⟨entry, hentry, hout⟩ := Option.map_eq_some_iff.mp hid
  obtain ⟨entry', hentry', hout'⟩ := Option.map_eq_some_iff.mp hid'
  exact h.conns_inj hentry hentry' (hout.trans hout'.symm)

theorem is_empty_targets_iff (h : Sound relay es w) {key : NodeKey} :
    (w.registry.byKey.lookup key).filter (!·.isEmpty) = none ↔ ∀ t, ¬w.Registered t key := by
  have hlisted (id : ClientId) := h.registry.same id key
  cases hids : w.registry.byKey.lookup key with
  | none =>
    rw [hids] at hlisted
    refine iff_of_true rfl fun t ⟨id, hentry⟩ => ?_
    obtain ⟨_, ⟨⟩, _⟩ := (hlisted id).mp ⟨t, hentry⟩
  | some ids =>
    have hsome := h.registry.nonempty key ids hids
    obtain ⟨id, hid⟩ := HashSet.exists_mem hsome
    obtain ⟨t, hentry⟩ := (hlisted id).mpr ⟨ids, hids, hid⟩
    refine iff_of_false ?_ fun hnone => hnone t ⟨id, hentry⟩
    rw [Option.filter_some, hsome]
    exact nofun

theorem route_targets (h : Sound relay es w) {src dest : NodeKey}
    (hsender : w.registry.conns.lookup id = some ⟨src, s⟩)
    (hshort : packet.length ≤ maxPacketPayloadLen) (hsome : ∃ t, w.Registered t dest) (t : TaskId) :
    (w.Registered t dest → (w.routeSendPacket id dest packet).channels t =
      ((w.channels t).trySend outboundCapacity (.recvPacket src packet)).1) ∧
    (¬w.Registered t dest → (w.routeSendPacket id dest packet).channels t = w.channels t) := by
  have htargets : (w.registry.byKey.lookup dest).filter (!·.isEmpty) ≠ none := by
    rw [Ne, h.is_empty_targets_iff, not_forall_not]
    exact hsome
  obtain ⟨targets, htargets⟩ := Option.ne_none_iff_exists'.mp htargets
  have hids := (Option.filter_eq_some_iff.mp htargets).1
  have hchannels : (w.routeSendPacket id dest packet).channels =
      (sendAll outboundCapacity (.recvPacket src packet)
        (w.registry.outsOf targets.items) w.channels).1 := by
    unfold World.routeSendPacket
    rw [if_neg (Nat.not_lt.mpr hshort), hsender]
    simp only [htargets]
    split <;> rfl
  rw [hchannels, send_all_apply (h.nodup_outs_of targets)]
  exact ⟨fun hregistered => if_pos ((h.mem_outs_of hids).mpr hregistered),
    fun hnot => if_neg fun hmem => hnot ((h.mem_outs_of hids).mp hmem)⟩

theorem route_nowhere (h : Sound relay es w) {src dest : NodeKey}
    (hsender : w.registry.conns.lookup id = some ⟨src, s⟩)
    (hshort : packet.length ≤ maxPacketPayloadLen) (hnone : ∀ t, ¬w.Registered t dest) :
    (w.routeSendPacket id dest packet).channels = update w.channels s
      ((w.channels s).trySend outboundCapacity (.peerGone dest .notHere)).1 := by
  unfold World.routeSendPacket
  rw [if_neg (Nat.not_lt.mpr hshort), hsender]
  simp only [h.is_empty_targets_iff.mpr hnone]
  rfl

end Sound

theorem World.announce_to_eq (node : NodeKey) {order : List NodeKey} {announced : HashSet NodeKey}
    (hnodup : order.Nodup) (hnew : ∀ peer ∈ order, peer ∉ announced) (out : Channel Frame) :
    announceTo node order announced out =
      out.sendEach outboundCapacity ((order.filter (· ≠ node)).map Frame.peerPresent) := by
  induction order generalizing announced out with
  | nil => rfl
  | cons peer peers ih =>
    obtain ⟨hpeer, hnodup⟩ := List.nodup_cons.mp hnodup
    have hrest := (List.forall_mem_cons.mp hnew).2
    unfold announceTo
    by_cases hnode : peer = node
    · rw [if_neg (fun h => h.1 hnode), List.filter_cons_of_neg (by simpa using hnode)]
      exact ih hnodup hrest out
    · rw [if_pos ⟨hnode, hnew peer List.mem_cons_self⟩,
        List.filter_cons_of_pos (by simpa using hnode), List.map_cons]
      refine ih hnodup (fun other hother hmem => ?_) _
      obtain rfl | hmem := HashSet.mem_insert.mp hmem
      · exact hpeer hother
      · exact hrest other hother hmem

/-- Registering announces the newcomer to all others, and all others to the newcomer. -/
theorem Sound.register_channels (h : Sound relay es w)
    {order : List NodeKey} (ht : w.tasks t = .admitted login)
    (horder : order.Perm w.registry.byKey.keys) (other : TaskId) :
    (Relay.registerTask t order w).channels other =
      if other = t then
        Channel.sendEach outboundCapacity
          ((order.filter (· ≠ login.nodeKey)).map Frame.peerPresent) {}
      else if other ∈ w.registry.outs then
        ((w.channels other).trySend outboundCapacity (.peerPresent login.nodeKey)).1
      else w.channels other := by
  have hnew : t ∉ w.registry.outs := by
    rintro hmem
    obtain ⟨key, id, hentry⟩ := World.mem_outs.mp hmem
    obtain ⟨login', hconn, -⟩ := (h.conns _ _).mp hentry
    rw [ht] at hconn
    cases hconn
  have hsent (name : TaskId) : (sendAll outboundCapacity (.peerPresent login.nodeKey)
      w.registry.outs (update w.channels t {})).1 name =
      if name ∈ w.registry.outs then
        ((update w.channels t {} name).trySend outboundCapacity
          (.peerPresent login.nodeKey)).1
      else update w.channels t {} name :=
    send_all_apply h.nodup_outs _ name
  have hnodup : order.Nodup := horder.nodup_iff.mpr w.registry.byKey.keys_nodup
  unfold Relay.registerTask
  simp only [ht]
  show update _ t _ other = _
  by_cases hother : other = t
  · subst hother
    rw [update_self, if_pos rfl, hsent, if_neg hnew, update_self]
    exact World.announce_to_eq _ hnodup (fun _ _ => HashSet.not_mem_empty _) _
  · rw [update_of_ne hother, if_neg hother, hsent, update_of_ne hother]

theorem Sound.deregister_task (h : Sound relay es w) (ht : w.tasks t = .leaving login id) :
    (Relay.deregisterTask t w).registry = (w.registry.remove id ⟨login.nodeKey, t⟩).1 ∧
      (Relay.deregisterTask t w).written = w.written ∧
      (Relay.deregisterTask t w).tasks = update w.tasks t .closed := by
  have hconn : (w.tasks t).conn = some (login, id) := by rw [ht]; rfl
  unfold Relay.deregisterTask
  simp only [ht, h.deregister_eq hconn]
  exact ⟨rfl, rfl, rfl⟩

theorem Sound.deregister_channels (h : Sound relay es w)
    (ht : w.tasks t = .leaving login id) (other : TaskId) :
    (Relay.deregisterTask t w).channels other =
      if (w.registry.remove id ⟨login.nodeKey, t⟩).2 = true ∧
          other ∈ (w.registry.remove id ⟨login.nodeKey, t⟩).1.outs then
        ((w.channels other).trySend outboundCapacity (.peerGone login.nodeKey .disconnected)).1
      else w.channels other := by
  have hconn : (w.tasks t).conn = some (login, id) := by rw [ht]; rfl
  have hnodup : (w.registry.remove id ⟨login.nodeKey, t⟩).1.outs.Nodup :=
    (h.deregister_task ht).1 ▸ (h.step (.deregister t)).nodup_outs
  unfold Relay.deregisterTask
  simp only [ht, h.deregister_eq hconn]
  show (if _ then _ else w.channels) other = _
  split
  case isTrue hlast =>
    exact (send_all_apply hnodup ..).trans (if_congr (and_iff_right hlast).symm rfl rfl)
  case isFalse hlast => rw [if_neg fun hboth => hlast hboth.1]

/-! ## Deliveries -/

/-- A connection sent a packet that is not too long: it is registered under a key that its login
opened under and was admitted for. -/
structure Sent (relay : Relay) (es : List Event) (w : World) (e : Event) (src dest : NodeKey)
    (packet : List UInt8) : Prop where
  short : packet.length ≤ maxPacketPayloadLen
  sender : ∃ s now, e = .frame s (.sendPacket dest packet) now ∧ w.Registered s src ∧
    ∃ login, .frame s ⟨.clientInfo, login.client⟩ login.now ∈ es ∧ Admitted relay login src

theorem Sound.sender (h : Sound relay es w) (hs : w.tasks s = .running login id) :
    w.registry.conns.lookup id = some ⟨login.nodeKey, s⟩ ∧
      .frame s ⟨.clientInfo, login.client⟩ login.now ∈ es ∧ Admitted relay login login.nodeKey := by
  obtain ⟨hadmitted, hread⟩ := h.logins s login (by rw [hs]; rfl)
  exact ⟨h.entry_of_conn (by rw [hs]; rfl), hread, hadmitted⟩

/-- What the frames of a running connection do to the channels: a packet is routed, and nothing else
does anything. -/
theorem Relay.read_frame_channels (relay : Relay)
    (hs : w.tasks s = .running login id) (frame : Frame) (now : Nat) :
    (∃ dest packet, frame = .sendPacket dest packet ∧
      (relay.readFrame s frame now w).channels = (w.routeSendPacket id dest packet).channels) ∨
    (∀ dest packet, frame ≠ .sendPacket dest packet) ∧
      (relay.readFrame s frame now w).channels = w.channels := by
  have hchannels : (relay.readFrame s frame now w).channels =
      (w.handleDataFrame id frame).1.channels := by
    unfold readFrame
    simp only [hs]
    split <;> rfl
  have hother (hty : frame.ty ≠ .sendPacket) (dest : NodeKey) (packet : List UInt8) :
      frame ≠ .sendPacket dest packet := fun heq => hty (heq ▸ rfl)
  rw [hchannels]
  unfold World.handleDataFrame
  split
  case h_1 hty =>
    split
    case h_1 error herror =>
      refine .inr ⟨fun dest packet heq => ?_, rfl⟩
      have hread := (SendPacketBody.decode_prefix_encode dest packet).1
      rw [heq] at herror
      exact nomatch herror.symm.trans hread
    case h_2 body hbody =>
      refine .inl ⟨body.dest, frame.payload.drop SendPacketBody.prefixLen, ?_, rfl⟩
      have hpayload := SendPacketBody.of_decode_prefix hbody
      obtain ⟨ty, payload⟩ := frame
      cases hty
      exact congrArg (Frame.mk .sendPacket) hpayload
  all_goals
    refine .inr ⟨hother ?_, rfl⟩
    simp_all

/-- What becomes of the channel and the stream of a connection in an event that registers and
deregisters nothing. -/
inductive Effect (relay : Relay) (es : List Event) (w : World) (e : Event) (t : TaskId) :
    Channel Frame → List Frame → Prop where
  | same : Effect relay es w e t (w.channels t) (w.written t)
  | packet {src dest : NodeKey} {packet : List UInt8} (hregistered : w.Registered t dest)
      (hsent : Sent relay es w e src dest packet) : Effect relay es w e t
        ((w.channels t).trySend outboundCapacity (.recvPacket src packet)).1 (w.written t)
  | nowhere {key dest : NodeKey} (hregistered : w.Registered t key) : Effect relay es w e t
      ((w.channels t).trySend outboundCapacity (.peerGone dest .notHere)).1 (w.written t)
  | keepalive {key : NodeKey} (hregistered : w.Registered t key) : Effect relay es w e t
      ((w.channels t).trySend outboundCapacity ⟨.keepAlive, []⟩).1 (w.written t)
  | login {frame : Frame} (hty : frame.ty = .serverKey ∨ frame.ty = .serverInfo) :
      Effect relay es w e t (w.channels t) (w.written t ++ [frame])
  | wrote {frame : Frame} {queue : List Frame} (hqueue : (w.channels t).queue = frame :: queue) :
      Effect relay es w e t { w.channels t with queue } (w.written t ++ [frame])
  | broke : Effect relay es w e t { queue := [], closed := true } (w.written t)

def Leaves (relay : Relay) (es : List Event) (w : World) (e : Event) (t : TaskId) (w' : World) :
    Prop :=
  Effect relay es w e t (w'.channels t) (w'.written t)

theorem Leaves.same {w' : World} (hchannels : w'.channels t = w.channels t)
    (hwritten : w'.written t = w.written t) : Leaves relay es w e t w' := by
  unfold Leaves
  rw [hchannels, hwritten]
  exact .same

theorem Leaves.send_to {frame : Frame}
    (heffect : Effect relay es w e s ((w.channels s).trySend outboundCapacity frame).1
      (w.written s)) : Leaves relay es w e t (w.sendTo s frame) := by
  by_cases ht : t = s
  · subst ht
    show Effect relay es w e t (update w.channels t _ t) _
    rw [update_self]
    exact heffect
  · exact .same (update_of_ne ht ..) rfl

theorem Leaves.wrote {frame : Frame}
    (hty : frame.ty = .serverKey ∨ frame.ty = .serverInfo) (task : Task) :
    Leaves relay es w e t ((w.wrote s frame).setTask s task) := by
  by_cases ht : t = s
  · subst ht
    show Effect relay es w e t _ (update w.written t _ t)
    rw [update_self]
    exact .login hty
  · exact .same rfl (update_of_ne ht ..)

/-- A packet reaches the connections of its destination, or its sender hears that there are none. -/
theorem Sound.route_leaves (h : Sound relay es w)
    {dest : NodeKey} {now : Nat} (hs : w.tasks s = .running login id) :
    Effect relay es w (.frame s (.sendPacket dest packet) now) t
      ((w.routeSendPacket id dest packet).channels t) (w.written t) := by
  obtain ⟨hsender, hread, hadmitted⟩ := h.sender hs
  by_cases hshort : packet.length ≤ maxPacketPayloadLen
  case neg =>
    unfold World.routeSendPacket
    rw [if_pos (Nat.lt_of_not_le hshort)]
    exact .same
  by_cases hsome : ∃ t, w.Registered t dest
  case neg =>
    rw [h.route_nowhere hsender hshort (not_exists.mp hsome)]
    exact Leaves.send_to (s := s) (.nowhere ⟨id, hsender⟩)
  obtain ⟨hin, hout⟩ := h.route_targets hsender hshort hsome t
  by_cases ht : w.Registered t dest
  · rw [hin ht]
    exact .packet ht ⟨hshort, s, now, rfl, ⟨id, hsender⟩, login, hread, hadmitted⟩
  · rw [hout ht]
    exact .same

theorem Relay.read_frame_written (relay : Relay) (w : World) (s : TaskId) (frame : Frame)
    (now : Nat) : (relay.readFrame s frame now w).written = w.written := by
  have hroute (id : ClientId) (dest : NodeKey) (packet : List UInt8) :
      (w.routeSendPacket id dest packet).written = w.written := by
    unfold World.routeSendPacket
    repeat' split
    all_goals rfl
  have hhandle (id : ClientId) : (w.handleDataFrame id frame).1.written = w.written := by
    unfold World.handleDataFrame
    split <;> try rfl
    split
    · rfl
    · exact hroute ..
  unfold readFrame
  split
  · split
    · split <;> rfl
    · rfl
  · dsimp only
    split <;> exact hhandle _
  · rfl

theorem Sound.leaves (h : Sound relay es w) (he : e.OffRegistry) (t : TaskId) :
    Leaves relay es w e t (relay.step e w) := by
  cases e with
  | register s order => exact he.elim
  | deregister s => exact he.elim
  | connect s written =>
    show Leaves relay es w _ t (relay.connect s written w)
    unfold Relay.connect
    split
    case h_2 => exact .same rfl rfl
    split
    · exact .wrote (.inl rfl) _
    · exact .same rfl rfl
  | frame s frame now =>
    have hwritten := congrFun (relay.read_frame_written w s frame now) t
    show Leaves relay es w _ t (relay.readFrame s frame now w)
    cases hs : w.tasks s with
    | running login id =>
      obtain ⟨dest, packet, rfl, hchannels⟩ | ⟨-, hchannels⟩ :=
        relay.read_frame_channels hs frame now
      · unfold Leaves
        rw [hchannels, hwritten]
        exact h.route_leaves hs
      · exact .same (congrFun hchannels t) hwritten
    | _ =>
      refine .same ?_ hwritten
      unfold Relay.readFrame
      simp only [hs]
      repeat' split
      all_goals rfl
  | readEnd s =>
    show Leaves relay es w _ t (Relay.readEnd s w)
    unfold Relay.readEnd
    split <;> exact .same rfl rfl
  | serverInfo s nonce written =>
    show Leaves relay es w _ t (relay.writeServerInfo s nonce written w)
    unfold Relay.writeServerInfo
    split
    case h_2 => exact .same rfl rfl
    split
    · exact .same rfl rfl
    split
    · exact .wrote (.inr rfl) _
    · exact .same rfl rfl
  | keepalive s =>
    have hkeepalive (id : ClientId) :
        Leaves relay es w (.keepalive s) t (w.sendKeepalive id) := by
      unfold World.sendKeepalive
      split
      · exact .same rfl rfl
      case h_2 entry hentry => exact .send_to (.keepalive ⟨id, hentry⟩)
    show Leaves relay es w _ t (Relay.keepaliveTask s w)
    unfold Relay.keepaliveTask
    split
    · exact hkeepalive _
    · exact hkeepalive _
    · exact .same rfl rfl
  | write s written =>
    show Leaves relay es w _ t (Relay.writeNext s written w)
    unfold Relay.writeNext
    split
    · exact .same rfl rfl
    case h_2 frame queue hqueue =>
    by_cases ht : t = s
    · subst ht
      split
      · show Effect relay es w _ t (update w.channels t _ t)
          (update w.written t _ t)
        rw [update_self, update_self]
        exact .wrote hqueue
      · show Effect relay es w _ t (update w.channels t _ t) (w.written t)
        rw [update_self]
        exact .broke
    · split
      · exact .same (update_of_ne ht ..) (update_of_ne ht ..)
      · exact .same (update_of_ne ht ..) rfl

theorem Sound.recv_packet_sent (h : Sound relay es w) (he : Allowed w e) {src : NodeKey}
    (hplaced : .recvPacket src packet ∈ (w.channels t).placed ((relay.step e w).channels t)) :
    ∃ dest, w.Registered t dest ∧ Sent relay es w e src dest packet := by
  have hsame {channel : Channel Frame} (hchannel : channel = w.channels t)
      (hmem : .recvPacket src packet ∈ (w.channels t).placed channel) : False := by
    rw [hchannel, Channel.placed_self] at hmem
    cases hmem
  have hother {frame : Frame} (hty : frame.ty ≠ .recvPacket) {channel : Channel Frame}
      (hchannel : channel = ((w.channels t).trySend outboundCapacity frame).1)
      (hmem : .recvPacket src packet ∈ (w.channels t).placed channel) : False := by
    rw [hchannel] at hmem
    exact hty (Channel.mem_placed_try_send hmem ▸ rfl)
  have hoff (he : e.OffRegistry) :
      ∃ dest, w.Registered t dest ∧ Sent relay es w e src dest packet := by
    have hleaves := h.leaves he t
    unfold Leaves at hleaves
    generalize (relay.step e w).channels t = channel at hleaves hplaced
    generalize (relay.step e w).written t = written at hleaves
    cases hleaves with
    | packet hregistered hsent =>
      obtain ⟨rfl, rfl⟩ := Frame.recv_packet_inj (Channel.mem_placed_try_send hplaced)
      exact ⟨_, hregistered, hsent⟩
    | same | login _ => exact (hsame rfl hplaced).elim
    | nowhere _ | keepalive _ => exact (hother (by intro hty; cases hty) rfl hplaced).elim
    | @wrote frame queue hqueue =>
      have hshorter : (w.channels t).placed { w.channels t with queue } = [] := by
        rw [Channel.placed, hqueue]
        exact List.drop_of_length_le (Nat.le_succ _)
      rw [hshorter] at hplaced
      cases hplaced
    | broke => cases List.mem_of_mem_drop hplaced
  cases e with
  | register s order =>
    change _ ∈ (w.channels t).placed ((Relay.registerTask s order w).channels t) at hplaced
    cases hs : w.tasks s with
    | admitted login =>
      rw [h.register_channels hs he t] at hplaced
      split at hplaced
      · have hmem := Channel.mem_queue_of_mem_placed hplaced
        rw [Channel.send_each_queue rfl, List.nil_append] at hmem
        obtain ⟨peer, -, heq⟩ := List.mem_map.mp (List.mem_of_mem_take hmem)
        have hty := congrArg Frame.ty heq
        cases hty
      · split at hplaced
        · exact (hother (by intro hty; cases hty) rfl hplaced).elim
        · exact (hsame rfl hplaced).elim
    | _ =>
      refine (hsame ?_ hplaced).elim
      unfold Relay.registerTask
      simp only [hs]
  | deregister s =>
    change _ ∈ (w.channels t).placed ((Relay.deregisterTask s w).channels t) at hplaced
    cases hs : w.tasks s with
    | leaving login id =>
      rw [h.deregister_channels hs t] at hplaced
      split at hplaced
      · exact (hother (by intro hty; cases hty) rfl hplaced).elim
      · exact (hsame rfl hplaced).elim
    | _ =>
      refine (hsame ?_ hplaced).elim
      unfold Relay.deregisterTask
      simp only [hs]
  | _ => exact hoff trivial

/-- In every run, a packet that is put into the channel of a connection was sent to its key, by a
connection registered under a key that its login opened under and was admitted for. Each packet that
is not too long is put once into the channel of every connection of its destination that has room,
and into no other; when there is no such connection the sender alone hears of it. The two maps of
the registry describe the same connections, and no key is left without one. -/
theorem relay_authentic_and_exact (hrun : Runs relay (fun _ _ => True) es w) (he : Allowed w e) :
    (∀ t dest src packet, w.Registered t dest →
      .recvPacket src packet ∈ (w.channels t).placed ((relay.step e w).channels t) →
      Sent relay es w e src dest packet) ∧
    (∀ s login id dest packet now, e = .frame s (.sendPacket dest packet) now →
      w.tasks s = .running login id → packet.length ≤ maxPacketPayloadLen →
      (∀ t, w.Registered t dest → (w.channels t).HasRoom outboundCapacity →
        ((relay.step e w).channels t).queue =
          (w.channels t).queue ++ [.recvPacket login.nodeKey packet]) ∧
      (∀ t, ¬(w.Registered t dest ∧ (w.channels t).HasRoom outboundCapacity) →
        (∃ t, w.Registered t dest) → (relay.step e w).channels t = w.channels t) ∧
      ((∀ t, ¬w.Registered t dest) →
        ((w.channels s).HasRoom outboundCapacity → ((relay.step e w).channels s).queue =
          (w.channels s).queue ++ [.peerGone dest .notHere]) ∧
        (¬(w.channels s).HasRoom outboundCapacity →
          (relay.step e w).channels s = w.channels s) ∧
        ∀ t, t ≠ s → (relay.step e w).channels t = w.channels t)) ∧
    (∀ id key, (∃ out, w.registry.conns.lookup id = some ⟨key, out⟩) ↔
      ∃ ids, w.registry.byKey.lookup key = some ids ∧ id ∈ ids) ∧
    ∀ key ids, w.registry.byKey.lookup key = some ids → ∃ id, id ∈ ids := by
  have h := hrun.sound
  refine ⟨fun t dest src packet ht hplaced => ?_, ?_, h.registry.same,
    fun key ids hids => HashSet.exists_mem (h.registry.nonempty key ids hids)⟩
  · obtain ⟨dest', ⟨id', hentry'⟩, hsent⟩ := h.recv_packet_sent he hplaced
    obtain ⟨id, hentry⟩ := ht
    -- A connection is registered under one key.
    obtain rfl := h.conns_inj hentry hentry' rfl
    cases hentry.symm.trans hentry'
    exact hsent
  · rintro s login id dest packet now rfl hs hshort
    have hsender := (h.sender hs).1
    have hchannels : (relay.step (.frame s (.sendPacket dest packet) now) w).channels =
        (w.routeSendPacket id dest packet).channels := by
      obtain ⟨dest', packet', heq, hchannels⟩ | ⟨hnot, -⟩ :=
        relay.read_frame_channels hs (.sendPacket dest packet) now
      · obtain ⟨rfl, rfl⟩ := Frame.send_packet_inj heq
        exact hchannels
      · exact (hnot dest packet rfl).elim
    rw [hchannels]
    refine ⟨fun t ht hroom => ?_, fun t hnot hsome => ?_, fun hnone => ?_⟩
    · rw [(h.route_targets hsender hshort ⟨t, ht⟩ t).1 ht, Channel.try_send_room hroom]
    · obtain ⟨hin, hout⟩ := h.route_targets hsender hshort hsome t
      by_cases ht : w.Registered t dest
      · rw [hin ht, Channel.try_send_full fun hroom => hnot ⟨ht, hroom⟩]
      · exact hout ht
    · rw [h.route_nowhere hsender hshort hnone]
      refine ⟨fun hroom => ?_, fun hfull => ?_, fun t ht => update_of_ne ht ..⟩
      · rw [update_self, Channel.try_send_room hroom]
      · rw [update_self, Channel.try_send_full hfull]

/-! ## An example -/

def plainLibraries : Libraries where
  publicKey secret := ⟨secret.toBytes⟩
  encrypt _ _ _ plaintext := some plaintext
  decrypt _ _ _ ciphertext := some ciphertext
  toVec _ := .ok []
  fromSlice _ := .ok {}

def keyOf (n : Nat) : NodeKey :=
  ⟨⟨(toBeBytes16 (UInt16.ofNat n)).val ++ List.replicate 30 0, rfl⟩⟩

def plainRelay : Relay := { ext := plainLibraries, serverSecret := ⟨(keyOf 0).toBytes⟩ }

def zeroNonce : Bytes nonceLen := ⟨List.replicate 24 0, rfl⟩

def logIn (t : TaskId) (key : NodeKey) : List Event :=
  [.connect t true, .frame t ⟨.clientInfo,
    ClientInfoBody.encodePrefix { key, nonce := zeroNonce }⟩ 0,
    .serverInfo t zeroNonce true]

/-- A client logs in and is registered. -/
def join (t : TaskId) (key : NodeKey) (order : List NodeKey) : List Event :=
  logIn t key ++ [.register t order]

def threeJoin : List Event :=
  join 1 (keyOf 1) [] ++ join 2 (keyOf 2) [keyOf 1] ++ join 3 (keyOf 2) [keyOf 2, keyOf 1]

def threeJoined : World := plainRelay.runEvents threeJoin {}

theorem runs_three_joined : Runs plainRelay (fun _ _ => True) threeJoin threeJoined :=
  Runs.start.events threeJoin (by decide +kernel)

/-- A packet of the first client is put into the channels of both others. -/
theorem relay_three_joined :
    threeJoined.registry.byKey.keys = [keyOf 2, keyOf 1] ∧
      ∀ t, t = 2 ∨ t = 3 →
        ((plainRelay.step (.frame 1 (.sendPacket (keyOf 2) [7]) 0) threeJoined).channels t).queue =
          (threeJoined.channels t).queue ++ [.recvPacket (keyOf 1) [7]] := by
  refine ⟨by decide +kernel, fun t ht => ?_⟩
  have hall := relay_authentic_and_exact (e := .frame 1 (.sendPacket (keyOf 2) [7]) 0)
    runs_three_joined trivial
  have hexact := hall.2.1 1 _ 1 (keyOf 2) [7] 0 rfl rfl (by decide)
  obtain rfl | rfl := ht
  · exact hexact.1 2 ⟨2, by decide +kernel⟩ (by decide +kernel)
  · exact hexact.1 3 ⟨3, by decide +kernel⟩ (by decide +kernel)

end Crabscale.Derp
