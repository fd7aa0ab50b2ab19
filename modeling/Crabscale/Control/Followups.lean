import Crabscale.Control.StableIds
import Crabscale.Control.Verdicts

/-!
# Followups of approved registrations

A followup removes its registration before it creates the node, so the first followup uses the
approval up, whether it succeeds or not (`followup_not_repeatable`). `first_followup_authorized`: an
approval lasts through every run that neither rejects it nor follows it up nor waits too long, and
then the followup of its machine is authorized.
-/

namespace Crabscale.Control

open Rust Proto Policy Interaction Interaction.Program ControlPlane

variable {cp : ControlPlane} {op : Op} {w₀ w : World} {entry : PendingRegistration}

/-! ## An approval lasts -/

def StillApproved (entry : PendingRegistration) (db : Db) : Prop :=
  ∃ userId tags, db.getPending entry.authId = some { entry with verdict := .approved userId tags } ∧
    userId ∈ db.users.map User.id

def PastExpiry (cp : ControlPlane) (entry : PendingRegistration) (w₀ w : World) : Prop :=
  ∃ i, w₀.env.position ≤ i ∧ i < w.env.position ∧
    cp.ext.isPast entry.expiresAt (cp.ext.formatRfc3339 (w₀.env.clock i)) = true

def Spares (entry : PendingRegistration) (_ : World) : Op → Prop
  | .rejectPending authId => authId ≠ entry.authId
  | .register machineKey request => machineKey = entry.machineKey →
      authIdFromFollowup request.followup ≠ some entry.authId
  | _ => True

theorem PastExpiry.mono {w' : World} (h : PastExpiry cp entry w₀ w)
    (hle : w.env.position ≤ w'.env.position) : PastExpiry cp entry w₀ w' := by
  obtain ⟨i, hfrom, hto, hpast⟩ := h
  exact ⟨i, hfrom, Nat.lt_of_lt_of_le hto hle, hpast⟩

def Lasts (cp : ControlPlane) (entry : PendingRegistration) (w₀ w : World) : Prop :=
  PastExpiry cp entry w₀ w ∨ StillApproved entry w.db

theorem StillApproved.save {saved : PendingRegistration} (hspares : Spares entry w₀ op)
    (hnew : NeverDrawn entry.authId w₀) (h : StillApproved entry w.db)
    (hsave : PendingAct cp op w₀ w saved) (hid : saved.authId = entry.authId) :
    StillApproved entry (w.db.savePending saved).2 := by
  obtain ⟨userId, tags, hstored, huser⟩ := h
  cases hsave with
  | start _ hdrawn hsecret _ _ => exact (hnew _ hdrawn (hsecret.symm.trans hid)).elim
  | @reject authId before hop hbefore hsaved =>
    subst hop
    refine (hspares ?_).elim
    rw [← hid, hsaved]
    exact (Db.get_pending_eq_some.mp hbefore).1.symm
  | @approve authId userName before user _ hbefore hmem _ _ hsaved =>
    obtain rfl : authId = entry.authId := by
      rw [← hid, hsaved]
      exact (Db.get_pending_eq_some.mp hbefore).1.symm
    rw [hstored] at hbefore
    cases hbefore
    obtain hsame | hsaving := w.db.save_pending_cases saved
    · rw [hsame]
      exact ⟨userId, tags, hstored, huser⟩
    · have husers := Call.user_ids_subset (.store (.savePending saved)) w
      rw [hid] at hsaving
      exact ⟨_, _, hsaving.trans (congrArg some hsaved), husers (List.mem_map_of_mem hmem)⟩

theorem Lasts.call {c : Call} (hspares : Spares entry w₀ op) (hnew : NeverDrawn entry.authId w₀)
    (h : Lasts cp entry w₀ w) (hc : Acts cp op w₀ w c) : Lasts cp entry w₀ (handler c w).2 := by
  have hle : w.env.position ≤ (handler c w).2.env.position := ((Since.refl w).call c).le
  obtain hexpired | happroved := h
  · exact .inl (hexpired.mono hle)
  by_cases hsaves : ∃ saved, c = .store (.savePending saved) ∧ saved.authId = entry.authId
  · obtain ⟨saved, rfl, hid⟩ := hsaves
    exact .inr (happroved.save hspares hnew hc hid)
  obtain ⟨userId, tags, hstored, huser⟩ := happroved
  by_cases hdrops : c = .store (.deletePending entry.authId)
  · subst hdrops
    cases hc with
    | expired hentry hfrom hto hpast =>
      rw [hstored] at hentry
      cases hentry
      exact .inl (PastExpiry.mono ⟨_, hfrom, hto, hpast⟩ hle)
    | answered hop hauth hentry hmachine =>
      rw [hstored] at hentry
      cases hentry
      subst hop
      exact (hspares hmachine.symm hauth).elim
  · have hkept := Call.get_pending_kept hstored
      (fun saved hsave hid => hsaves ⟨saved, hsave, hid⟩) hdrops
    exact .inr ⟨userId, tags, hkept, Call.user_ids_subset c w huser⟩

theorem StillApproved.run {P : World → Prop} {start : World} (hnew : NeverDrawn entry.authId start)
    (h : StillApproved entry start.db) (hrun : Runs cp (Spares entry) P start w) :
    Lasts cp entry start w := by
  induction hrun with
  | refl _ => exact .inr h
  | @step w op hbefore hspares _ ih =>
    have hsince := hbefore.since
    have hle : w.env.position ≤ (op.exec cp w).env.position := ((Since.refl w).step op).le
    obtain hexpired | happroved := ih
    · exact .inl (hexpired.mono hle)
    obtain hexpired | happroved : Lasts cp entry w (op.exec cp w) :=
      Op.keeps_world (fun _ _ hw hc => Lasts.call hspares (hnew.later hsince) hw hc)
        (.inr happroved)
    · obtain ⟨i, hfrom, hto, hpast⟩ := hexpired
      rw [hsince.clock] at hpast
      exact .inl ⟨i, hsince.le.trans hfrom, hto, hpast⟩
    · exact .inr happroved

/-! ## Drawing addresses -/

def DrawsFree {α : Type} (ofNat : Nat → α) (range : Option (Nat × Nat)) (used : List α)
    (w : World) :
    Prop :=
  ∃ first count, range = some (first, count) ∧ ∀ position, w.env.position ≤ position →
    ∃ k < ControlPlane.allocationAttempts,
      ofNat (first + w.env.draws (position + k) % count) ∉ used

variable {n : Nat}

theorem Since.draws (h : Since w₀ n w) : w.env.draws = w₀.env.draws := by
  rw [h.env]

theorem draw_free_ok {α : Type} [DecidableEq α] {ofNat : Nat → α} {first count : Nat}
    {used : List α} {attempts : Nat} {R : Db → Prop} (hw : At w₀ n R w)
    (hfree : ∃ k < attempts, ofNat (first + w₀.env.draws (w.env.position + k) % count) ∉ used) :
    After (fun _ => At w₀ n R) (fun _ _ => False)
      ((drawFree ofNat first count used attempts).run handler w) := by
  induction attempts generalizing w with
  | zero =>
    obtain ⟨k, hk, -⟩ := hfree
    exact (Nat.not_lt_zero k hk).elim
  | succ attempts ih =>
    have htick : At w₀ n R w.tick := ⟨hw.1, hw.2.call (.env (.genRange count))⟩
    have hdraw : (environment (.genRange count)).run handler w =
        (.ok (w₀.env.draws w.env.position % count), w.tick) := by
      rw [← hw.2.draws]
      rfl
    rw [drawFree, run_bind_ok handler hdraw]
    dsimp only
    split
    case isTrue hused =>
      -- The free draw is not the first one, so it is among the others.
      refine ih htick ?_
      obtain ⟨k, hk, hnot⟩ := hfree
      cases k with
      | zero => exact (hnot hused).elim
      | succ k =>
        refine ⟨k, Nat.lt_of_succ_lt_succ hk, ?_⟩
        rw [Nat.add_comm k 1, ← Nat.add_assoc] at hnot
        exact hnot
    case isFalse => exact htick

theorem allocate_ipv4_ok {used : List Ipv4Addr} {R : Db → Prop}
    (hn : w₀.env.position ≤ n) (hdraws : DrawsFree (fun k => ⟨BitVec.ofNat 32 k⟩)
      (ipv4HostRange cp.config.ipv4Prefix cp.config.ipv4PrefixLen) used w₀) :
    Yields (At w₀ n R) (cp.allocateIpv4 used) (fun _ => At w₀ n R) (fun _ _ => False) := by
  obtain ⟨first, count, hrange, hfree⟩ := hdraws
  unfold allocateIpv4
  rw [hrange]
  intro w hw
  exact ⟨safe_any _ w, draw_free_ok hw (hfree _ (hn.trans hw.2.le))⟩

theorem allocate_ipv6_ok {used : List Ipv6Addr} {R : Db → Prop}
    (hn : w₀.env.position ≤ n) (hdraws : DrawsFree (fun k => ⟨BitVec.ofNat 128 k⟩)
      (ipv6HostRange cp.config.ipv6Prefix cp.config.ipv6PrefixLen) used w₀) :
    Yields (At w₀ n R) (cp.allocateIpv6 used) (fun _ => At w₀ n R) (fun _ _ => False) := by
  obtain ⟨first, count, hrange, hfree⟩ := hdraws
  unfold allocateIpv6
  rw [hrange]
  intro w hw
  exact ⟨safe_any _ w, draw_free_ok hw (hfree _ (hn.trans hw.2.le))⟩

structure DrawsAddresses (cp : ControlPlane) (w : World) : Prop where
  ipv4 : DrawsFree (fun k => ⟨BitVec.ofNat 32 k⟩)
    (ipv4HostRange cp.config.ipv4Prefix cp.config.ipv4PrefixLen)
    (ControlPlane.usedIpv4 w.db.nodes) w
  ipv6 : DrawsFree (fun k => ⟨BitVec.ofNat 128 k⟩)
    (ipv6HostRange cp.config.ipv6Prefix cp.config.ipv6PrefixLen)
    (ControlPlane.usedIpv6 w.db.nodes) w

theorem create_node_ok {machineKey : MachineKey} {request : RegisterRequest} {userId : Nat}
    {tags : Option (List String)} {ephemeral : Bool} {now : String} {R : Db → Prop}
    (hn : w₀.env.position ≤ n) (hnodes : ∀ db, R db → db.nodes = w₀.db.nodes)
    (hdraws : DrawsAddresses cp w₀) :
    Yields (At w₀ n R) (cp.createNodeFromRequest machineKey request userId tags ephemeral now)
      (fun node w => At w₀ n R w ∧ ∃ ipv4 ipv6,
        node = cp.newNode machineKey request userId tags ephemeral now ipv4 ipv6)
      (fun _ _ => False) := by
  refine triple_bind_read any_call_allows_quiet reads_list_nodes (calls_store trivial)
    fun nodes => ?_
  refine Triple.assume (φ := nodes = w₀.db.nodes)
    (fun w hw => hw.2.symm.trans (hnodes w.db hw.1.1)) fun hsame => ?_
  subst hsame
  refine Triple.pre (P := At w₀ n R) ?_ fun _ hw => hw.1
  exact (allocate_ipv4_ok hn hdraws.ipv4).bind fun ipv4 => (allocate_ipv6_ok hn hdraws.ipv6).bind
    fun ipv6 => triple_pure fun _ hw => ⟨hw, ipv4, ipv6, rfl⟩

/-! ## The first followup -/

/-- A node can be created: every row has its own stable id, and addresses are drawn. -/
structure CanCreate (cp : ControlPlane) (w : World) : Prop where
  stable : w.db.Stable
  draws : DrawsAddresses cp w

def AuthorizedFor (machineKey : MachineKey) (nodeKey : NodeKey) (db : Db) : Prop :=
  ∃ row ∈ db.nodes, row.nodeKey = nodeKey ∧ row.machineKey = machineKey ∧
    row.machineAuthorized = true

def SameRows (db₀ db : Db) : Prop := db.nodes = db₀.nodes ∧ db.users = db₀.users

theorem remove_pending_ok {authId : String} :
    Yields (At w₀ n (· = w₀.db)) (removePendingEntry authId)
      (fun _ => At w₀ n (SameRows w₀.db)) (fun _ _ => False) := by
  refine Triple.bind (M := fun _ => At w₀ n (· = w₀.db))
    (triple_perform (fun _ _ => trivial) fun w hw => ⟨hw.1, hw.2.call _⟩) fun _ =>
      triple_store (fun _ _ => trivial) ?_ ?_
  · intro w hw _ db hrun
    have hsame := StoreCall.same_but w.db (.deletePending authId)
    rw [hrun, hw.1] at hsame
    exact ⟨⟨hsame.nodes (by rintro ⟨⟩), hsame.users (by rintro ⟨⟩)⟩, hw.2.env, hw.2.le⟩
  · intro w hw error db hrun
    obtain ⟨db', hok, -⟩ := w.db.delete_pending_ok authId
    cases hok.symm.trans hrun

theorem admit_node_ok {node : Node} (hid : node.id = 0) (hempty : node.stableId = "")
    (hstable : w₀.db.Stable) (huser : ∀ userId ∈ node.userId, userId ∈ w₀.db.users.map User.id) :
    Yields (At w₀ n (SameRows w₀.db)) (admitNode node) (fun _ _ => True) (fun _ _ => False) := by
  refine Triple.bind (M := fun _ _ => True)
    (triple_store (fun _ _ => trivial) (fun _ _ _ _ _ => trivial) ?_) fun _ =>
      triple_perform (fun _ _ => trivial) fun _ _ => trivial
  intro w hw error db hrun
  obtain ⟨⟨hnodes, husers⟩, -⟩ := hw
  have hstored : w.db.Stable := by
    intro row hrow
    rw [hnodes] at hrow
    exact hstable row hrow
  obtain ⟨stored, db', hok⟩ := Db.upsert_ok hstored hid hempty (husers ▸ huser)
  cases hok.symm.trans hrun

theorem complete_followup_ok {machineKey : MachineKey} {userId : Nat} {tags : Option (List String)}
    {now : String} (hn : w₀.env.position ≤ n) (huser : userId ∈ w₀.db.users.map User.id)
    (hnode : AuthorizedFor machineKey entry.nodeKey w₀.db ∨ CanCreate cp w₀) :
    Yields (At w₀ n (· = w₀.db)) (cp.completeFollowup machineKey entry userId tags now)
      (fun response _ => response = cp.authorizedResponse) (fun _ _ => False) := by
  unfold completeFollowup
  refine remove_pending_ok.bind fun _ => ?_
  refine triple_bind_read any_call_allows_quiet (reads_get_node_by_node_key entry.nodeKey)
    (calls_store trivial) fun found => ?_
  refine Triple.assume (φ := w₀.db.getNodeByNodeKey entry.nodeKey = found) (fun w hw => ?_)
    fun hfound => ?_
  · rw [← hw.2, Db.getNodeByNodeKey, Db.getNodeByNodeKey, hw.1.1.1]
  refine Triple.pre (P := At w₀ n (SameRows w₀.db)) ?_ fun _ hw => hw.1
  dsimp only
  split
  · exact triple_pure fun _ _ => rfl
  case isFalse hnot =>
    obtain ⟨row, hrow, hkey, hmachine, hauthorized⟩ | hcreate := hnode
    · rw [Db.get_node_by_node_key_eq_some.mpr ⟨hrow, hkey⟩] at hfound
      subst hfound
      exact (hnot (by simp [hmachine, hauthorized])).elim
    refine Triple.bind (create_node_ok (R := SameRows w₀.db) hn (fun _ hdb => hdb.1)
      hcreate.draws) fun node => ?_
    refine Triple.assume (fun _ hw => hw.2) fun hbuilt => ?_
    obtain ⟨ipv4, ipv6, rfl⟩ := hbuilt
    refine ((admit_node_ok (n := n) rfl rfl hcreate.stable fun id hid => ?_).pre
      fun _ hw => hw.1).bind fun _ => triple_pure fun _ _ => rfl
    -- A node with tags has no owner, and any other one belongs to the approved user.
    change id ∈ (if tags.any (· ≠ []) then none else some userId) at hid
    split at hid <;> cases hid
    exact huser

theorem followup_ok {request : RegisterRequest} (hboot : Bootstrapped cp w.db)
    (happroved : StillApproved entry w.db)
    (hauth : authIdFromFollowup request.followup = some entry.authId)
    (hlive : cp.ext.isPast entry.expiresAt (cp.nowAt w) = false)
    (hnode : AuthorizedFor entry.machineKey entry.nodeKey w.db ∨ CanCreate cp w) :
    Yields (· = w) (cp.registerBody entry.machineKey request)
      (fun response _ => response = cp.authorizedResponse) (fun _ _ => False) := by
  obtain ⟨userId, tags, hstored, huser⟩ := happroved
  have hlookup : (getPendingEntry entry.authId).run handler w.tick =
      (.ok (some { entry with verdict := .approved userId tags }),
        { w.tick with
          pending := w.pending.insert { entry with verdict := .approved userId tags } }) := by
    rw [getPendingEntry,
      run_bind_ok handler (reads_get_pending entry.authId w.tick)]
    dsimp only [World.tick]
    rw [hstored]
    rfl
  rw [register_body_eq]
  refine triple_bind_run (safe_any _ _) (bootstrap_run hboot)
    (triple_bind_run (safe_any _ _) (now_run cp w) ?_)
  unfold registerAt pollFollowup
  rw [if_pos (auth_id_from_followup_ne_empty hauth), hauth]
  refine triple_bind_run (safe_any _ _) hlookup ?_
  dsimp only
  rw [if_neg (by simp), if_neg (by simp [hlive])]
  refine Triple.pre (complete_followup_ok (Nat.le_refl w.env.position) huser hnode) fun w' hw' => ?_
  rw [hw']
  exact ⟨rfl, rfl, Nat.le_succ _⟩

/-! ## Runs -/

theorem Grounded.step (hids : cp.HasIds) (h : Grounded cp w.db) (op : Op) :
    Grounded cp (op.exec cp w).db :=
  Op.invariant (fun _ _ hw hc => hw.call hids hc) h

theorem Grounded.run {C : World → Op → Prop} {P : World → Prop} {start : World} (hids : cp.HasIds)
    (h : Grounded cp start.db) (hrun : Runs cp C P start w) : Grounded cp w.db := by
  induction hrun with
  | refl _ => exact h
  | step _ _ _ ih => exact ih.step hids _

theorem Grounded.bootstrapped (h : Grounded cp w.db) (happroved : StillApproved entry w.db) :
    Bootstrapped cp w.db := by
  obtain ⟨userId, tags, hstored, -⟩ := happroved
  obtain ⟨-, row, hrow, -⟩ := Db.get_pending_eq_some.mp hstored
  exact h.pending.resolve_left (List.ne_nil_of_mem hrow)

theorem approved_still {login : String} {w₁ : World}
    (happrove : exec (cp.approvePending entry.authId login) w₀ = (.ok (), w₁))
    (hentry : w₁.db.getPending entry.authId = some entry) : StillApproved entry w₁.db := by
  have hop : (Op.approvePending entry.authId login).Approves w₀ entry.authId login := ⟨rfl, rfl⟩
  obtain ⟨stored, user, hstored, hverdict, huser, -⟩ := (approve_pending_spec hop).ok
    ⟨trivial, .refl w₀⟩ happrove
  rw [hentry] at hstored
  cases hstored
  refine ⟨user.id, approvedTags entry, ?_, List.mem_map_of_mem huser⟩
  rw [hentry, ← hverdict]

/-- In every run from an empty store: once a registration is approved, the first followup of its
machine before it expires is authorized, if the registration was not rejected in the meantime and a
node can be created unless there is one already. -/
theorem first_followup_authorized (hids : cp.HasIds) {env : Env} {w₁ w₂ : World} {login : String}
    {request : RegisterRequest}
    (hrun : Runs cp (fun _ _ => True) (fun _ => True) (cp.withStore Db.empty env) w₀)
    (happrove : exec (cp.approvePending entry.authId login) w₀ = (.ok (), w₁))
    (hentry : w₁.db.getPending entry.authId = some entry)
    (hspared : Runs cp (Spares entry) (fun _ => True) w₁ w₂) (hnew : NeverDrawn entry.authId w₁)
    (hlive : ∀ i, w₁.env.position ≤ i → i ≤ w₂.env.position →
      cp.ext.isPast entry.expiresAt (cp.ext.formatRfc3339 (w₁.env.clock i)) = false)
    (hauth : authIdFromFollowup request.followup = some entry.authId)
    (hnode : AuthorizedFor entry.machineKey entry.nodeKey w₂.db ∨ CanCreate cp w₂) :
    ∃ w₃, exec (cp.register entry.machineKey request) w₂ = (.ok cp.authorizedResponse, w₃) := by
  have hsince := hspared.since
  have happroved : StillApproved entry w₂.db := by
    obtain ⟨i, hfrom, hto, hpast⟩ | happroved := (approved_still happrove hentry).run hnew hspared
    · rw [hlive i hfrom hto.le] at hpast
      cases hpast
    · exact happroved
  have hgrounded : Grounded cp w₂.db := by
    have hbefore : Grounded cp w₀.db := Grounded.run hids writable_empty.grounded hrun
    have hafter := hbefore.step hids (.approvePending entry.authId login)
    rw [Op.exec, Op.program, happrove] at hafter
    exact hafter.run hids hspared
  have hnow : cp.ext.isPast entry.expiresAt (cp.nowAt w₂) = false := by
    have hreading := hlive w₂.env.position hsince.le le_rfl
    rw [← hsince.clock] at hreading
    exact hreading
  have hregister : Yields (· = w₂) (cp.register entry.machineKey request)
      (fun response _ => response = cp.authorizedResponse) (fun _ _ => False) := by
    refine (followup_ok (hgrounded.bootstrapped happroved) happroved hauth hnow hnode).attempt.bind
      fun result => ?_
    cases result with
    | ok response => exact triple_pure fun _ hw => hw
    | error error => exact triple_pure fun _ hw => hw.elim
  obtain ⟨response, w₃, hok, rfl⟩ := hregister.total rfl
  exact ⟨w₃, hok⟩

/-! ## A followup that is repeated -/

def approved : World := approve.exec openServer asked

def approvedEntry : PendingRegistration where
  authId := "token"
  machineKey := ⟨1⟩
  nodeKey := ⟨7⟩
  hostinfo := none
  expiry := ""
  version := 113
  ephemeral := false
  createdAt := ""
  expiresAt := ""
  verdict := .approved 1 none

theorem can_create_approved : CanCreate openServer approved := by
  have hnodes : approved.db.nodes = [] := by decide +kernel
  refine ⟨?_, ⟨1681915905, 4194302, by decide +kernel, fun position _ => ⟨0, by decide, ?_⟩⟩,
    ⟨_, _, rfl, fun position _ => ⟨0, by decide, ?_⟩⟩⟩
  · unfold Db.Stable
    rw [hnodes]
    exact List.forall_mem_nil _
  · rw [hnodes]
    exact List.not_mem_nil
  · rw [hnodes]
    exact List.not_mem_nil

theorem approved_ok :
    exec (openServer.approvePending approvedEntry.authId "owner@example.com") asked =
      (.ok (), approved) := by
  rfl

theorem approved_entry_stored :
    approved.db.getPending approvedEntry.authId = some approvedEntry := by
  decide +kernel

/-- The followup of the approved registration is authorized. -/
theorem first_followup_authorized_token :
    ∃ w, exec (openServer.register approvedEntry.machineKey pollToken) approved =
      (.ok openServer.authorizedResponse, w) := by
  have hrun : Runs openServer (fun _ _ => True) (fun _ => True)
      (openServer.withStore Db.empty drawnOnce) asked :=
    .step (.refl trivial) trivial trivial
  exact first_followup_authorized ⟨by decide, by decide⟩ hrun approved_ok
    approved_entry_stored (.refl trivial) (never_drawn_once rfl (by decide +kernel))
      (fun _ _ _ => rfl)
    (by decide +kernel) (.inr can_create_approved)

def smallServer : ControlPlane :=
  { openServer with config := { openServer.config with ipv4PrefixLen := 30 } }

/-- Two machines took the addresses, and the registration of a third one was approved. -/
def crowded : World :=
  runOps smallServer
    [.register ⟨2⟩ (registerRequest 2), .register ⟨3⟩ (registerRequest 3), askFor 1 7, approve]
    (smallServer.withStore Db.empty stillEnv)

/-- A repeated followup is not authorized although its node is, and a followup that finds no address
leaves no registration. -/
theorem followup_not_repeatable :
    (exec (openServer.register ⟨1⟩ pollToken) approved).1.toOption.map
        RegisterResponse.machineAuthorized = some true ∧
      ((exec (openServer.register ⟨1⟩ pollToken) approved).2.db.getNodeByNodeKey ⟨7⟩).map
        Node.machineAuthorized = some true ∧
      (exec (openServer.register ⟨1⟩ pollToken)
          (exec (openServer.register ⟨1⟩ pollToken) approved).2).1.toOption.map
        RegisterResponse.machineAuthorized = some false ∧
      (crowded.db.getPending "token").map (·.verdict) = some (.approved 1 none) ∧
      (exec (smallServer.register ⟨1⟩ pollToken) crowded).1.toOption =
        some { error := ControlError.ipAllocation.display } ∧
      (exec (smallServer.register ⟨1⟩ pollToken) crowded).2.db.getPending "token" = none := by
  decide +kernel

end Crabscale.Control
