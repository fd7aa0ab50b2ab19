import Crabscale.Control.Deeds
import Crabscale.Control.SshRows

/-!
# What the operations do to SSH approvals, and why

`SshActs` is the guard of the calls that write SSH approvals: a connection asks for one or renews
it, administrators decide, and an approval is dropped when it expired or when there are too many.
The operations about approvals keep to the guard and make no other writes (`Op.does_ssh`).
-/

namespace Crabscale.Control

open Rust Proto Policy Interaction Interaction.Program

/-- Why an SSH approval is saved by an operation that started in `w₀`. -/
inductive SshSave (cp : ControlPlane) (op : Op) (w₀ : World) (auth : SshAuth) : Prop where
  | ask {machineKey : MachineKey} {binding : SshBinding} {i : Nat}
      (hop : op = .handleSshAction machineKey binding none) (hfrom : w₀.env.position ≤ i)
      (hid : auth.authId = w₀.env.secrets i) (hverdict : auth.verdict = .pending)
  | renew {machineKey : MachineKey} {stored : SshAuth} {before : String} {i : Nat}
      (hop : op = .handleSshAction machineKey stored.binding none)
      (hstored : w₀.db.getSshAuth stored.authId = some stored)
      (hbefore : stored.verdict = .accepted before) (hfrom : w₀.env.position ≤ i)
      (hauth : auth =
        { stored with verdict := .accepted (cp.ext.formatRfc3339 (w₀.env.clock i)) })
  | approve {stored : SshAuth} {i : Nat} (hop : op = .approveSsh stored.authId)
      (hstored : w₀.db.getSshAuth stored.authId = some stored) (hfrom : w₀.env.position ≤ i)
      (hauth : auth =
        { stored with verdict := .accepted (cp.ext.formatRfc3339 (w₀.env.clock i)) })
  | reject {stored : SshAuth} (hop : op = .rejectSsh stored.authId)
      (hstored : w₀.db.getSshAuth stored.authId = some stored)
      (hauth : auth = { stored with verdict := .rejected })

/-- The approvals that have not expired at a reading of the clock. -/
def unexpiredAt (cp : ControlPlane) (w₀ : World) (i : Nat) : List SshAuth :=
  w₀.db.listSshAuths.filter fun auth =>
    !cp.ext.isPast auth.expiresAt (cp.ext.formatRfc3339 (w₀.env.clock i))

/-- Why an SSH approval is dropped by an operation that started in `w₀`. -/
inductive SshDrop (cp : ControlPlane) (w₀ w : World) (authId : String) : Prop where
  | expired {auth : SshAuth} {i : Nat} (hstored : w₀.db.getSshAuth authId = some auth)
      (hfrom : w₀.env.position ≤ i) (hto : i < w.env.position)
      (hpast : cp.ext.isPast auth.expiresAt (cp.ext.formatRfc3339 (w₀.env.clock i)) = true)
  | crowded {i : Nat} (hfrom : w₀.env.position ≤ i) (hto : i < w.env.position)
      (hlimit : defaultSshAuthLimit < (unexpiredAt cp w₀ i).length)

/-- The calls that an operation may make when it started in `w₀`. -/
def SshActs (cp : ControlPlane) (op : Op) (w₀ w : World) : Call → Prop
  | .store (.saveSshAuth auth) => SshSave cp op w₀ auth
  | .store (.deleteSshAuth authId) => SshDrop cp w₀ w authId
  | _ => True

theorem Call.OffSsh.ssh_acts {cp : ControlPlane} {op : Op} {w₀ w : World} {c : Call}
    (hc : c.OffSsh) : SshActs cp op w₀ w c := by
  cases c with
  | store c => cases c <;> first | exact hc.elim | trivial
  | memory c => trivial
  | env c => trivial

/-- The calls of the operations about SSH approvals. -/
def SshDeeds (cp : ControlPlane) (op : Op) (w₀ w : World) (c : Call) : Prop :=
  c.OnSsh ∧ SshActs cp op w₀ w c

theorem ssh_deeds_quiet {cp : ControlPlane} {op : Op} {w₀ : World} :
    AllowsQuiet (SshDeeds cp op w₀) :=
  fun _ _ hc => ⟨hc.on_ssh, hc.off_ssh.ssh_acts⟩

variable {cp : ControlPlane} {op : Op} {w₀ : World}

/-- The database is that of the start. -/
abbrev Unwritten (w₀ : World) (n : Nat) : World → Prop := At w₀ n (· = w₀.db)

theorem Unwritten.since {w : World} {i : Nat} (hi : w₀.env.position ≤ i)
    (hw : Unwritten w₀ (i + 1) w) : Unwritten w₀ w₀.env.position w :=
  ⟨hw.1, hw.2.mono (Nat.le_succ_of_le hi)⟩

/-- The program keeps to the guard. -/
abbrev DoesSsh {α : Type} (cp : ControlPlane) (op : Op) (w₀ : World) (p : ControlM α) : Prop :=
  Triple handler (SshDeeds cp op w₀) (Unwritten w₀ w₀.env.position) p (fun _ _ => True)
    (fun _ _ => True)

/-! ## Reading approvals -/

theorem get_ssh_auth_does {n : Nat} (authId : String) :
    Triple handler (SshDeeds cp op w₀) (Unwritten w₀ n) (store (.getSshAuth authId))
      (fun found w => Unwritten w₀ n w ∧ found = w₀.db.getSshAuth authId) (fun _ _ => True) := by
  refine triple_store (fun _ _ => ⟨trivial, trivial⟩) ?_ fun _ _ _ _ _ => trivial
  rintro w hw result db hrun
  cases hrun
  exact ⟨hw, congrArg (·.getSshAuth authId) hw.1⟩

variable {authId : String}

theorem delete_expired_does {auth : SshAuth} {i : Nat} {R : World → Prop}
    (hstored : w₀.db.getSshAuth authId = some auth) (hi : w₀.env.position ≤ i)
    (hpast : cp.ext.isPast auth.expiresAt (cp.ext.formatRfc3339 (w₀.env.clock i)) = true) :
    Triple handler (SshDeeds cp op w₀) (fun w => R w ∧ Since w₀ (i + 1) w)
      (store (.deleteSshAuth authId)) (fun _ _ => True) (fun _ _ => True) :=
  triple_store (fun _ hw => ⟨trivial, .expired hstored hi hw.2.le hpast⟩) (fun _ _ _ _ _ => trivial)
    fun _ _ _ _ _ => trivial

theorem live_ssh_auth_does {i : Nat} (hi : w₀.env.position ≤ i) :
    Triple handler (SshDeeds cp op w₀) (Unwritten w₀ (i + 1))
      (cp.liveSshAuth authId (cp.ext.formatRfc3339 (w₀.env.clock i)))
      (fun auth w => Unwritten w₀ (i + 1) w ∧ w₀.db.getSshAuth authId = some auth)
      (fun _ _ => True) := by
  refine (get_ssh_auth_does authId).bind fun found => ?_
  cases found with
  | none => exact triple_failed
  | some auth =>
    refine Triple.assume (fun _ hw => hw.2.symm) fun hstored => ?_
    dsimp only
    split
    case isTrue hpast =>
      refine Triple.bind (M := fun _ _ => True) ?_ fun _ => triple_failed
      exact (delete_expired_does hstored hi hpast).pre fun _ hw => hw.1
    case isFalse => exact triple_pure fun _ hw => ⟨hw.1, hstored⟩

/-! ## New connections -/

theorem list_ssh_auths_does {n : Nat} :
    Triple handler (SshDeeds cp op w₀) (Unwritten w₀ n) (store .listSshAuths)
      (fun entries w => Unwritten w₀ n w ∧ entries = w₀.db.listSshAuths) (fun _ _ => True) := by
  refine triple_store (fun _ _ => ⟨trivial, trivial⟩) ?_ fun _ _ _ _ _ => trivial
  intro w hw result db hrun
  cases hrun
  exact ⟨hw, congrArg Db.listSshAuths hw.1⟩

variable {machineKey : MachineKey} {binding : SshBinding}

theorem recent_ssh_acceptance_does
    (hop : op = .handleSshAction machineKey binding none) (checkPeriod : Nat) :
    Triple handler (SshDeeds cp op w₀) (Unwritten w₀ w₀.env.position)
      (cp.recentSshAcceptance binding checkPeriod)
      (fun accepted w => accepted = false → Unwritten w₀ w₀.env.position w) (fun _ _ => True) := by
  refine quiet_bind ssh_deeds_quiet (calls_perform.mpr trivial) fun now => ?_
  refine list_ssh_auths_does.bind fun entries => Triple.assume (fun _ hw => hw.2) fun hentries => ?_
  refine Triple.pre (P := Unwritten w₀ w₀.env.position) ?_ fun _ hw => hw.1
  cases hlatest : latestAcceptance cp.ext binding entries with
  | none => exact triple_pure fun _ hw _ => hw
  | some latest =>
    obtain ⟨auth, last⟩ := latest
    obtain ⟨hmem, hwhen⟩ := latest_acceptance_mem hlatest
    obtain ⟨rfl, before, hbefore, -⟩ := SshAuth.accepted_at_eq_some.mp hwhen
    rw [hentries, Db.mem_list_ssh_auths] at hmem
    dsimp only
    split
    · exact triple_pure fun _ hw _ => hw
    refine time_bind ssh_deeds_quiet (Nat.le_refl _) fun i hi => ?_
    refine Triple.bind (M := fun _ _ => True) (triple_store ?_ (fun _ _ _ _ _ => trivial)
      fun _ _ _ _ _ => trivial) fun _ => triple_pure fun _ _ hfalse => by cases hfalse
    exact fun _ _ => ⟨trivial, .renew hop hmem hbefore hi rfl⟩

theorem delete_ssh_auths_does {n : Nat} {entries : List SshAuth}
    (hreason : ∀ auth ∈ entries, ∀ w, Since w₀ n w → SshDrop cp w₀ w auth.authId) :
    Triple handler (SshDeeds cp op w₀) (Since w₀ n) (ControlPlane.deleteSshAuths entries)
      (fun _ => Since w₀ n) (fun _ _ => True) := by
  refine Triple.forM fun auth hauth => ?_
  exact triple_store (fun w hw => ⟨trivial, hreason auth hauth w hw⟩)
    (fun w hw _ _ _ => ⟨hw.env, hw.le⟩) fun _ _ _ _ _ => trivial

theorem prune_ssh_auths_does :
    Triple handler (SshDeeds cp op w₀) (Unwritten w₀ w₀.env.position)
      (cp.pruneSshAuths defaultSshAuthLimit) (fun _ => Since w₀ w₀.env.position)
      (fun _ _ => True) := by
  refine time_bind ssh_deeds_quiet (Nat.le_refl _) fun i hi => ?_
  refine list_ssh_auths_does.bind fun entries => Triple.assume (fun _ hw => hw.2) ?_
  rintro rfl
  refine Triple.bind (M := fun _ => Since w₀ (i + 1)) ((delete_ssh_auths_does ?_).pre
    fun _ hw => hw.1.2) fun _ => ?_
  · intro auth hauth w hw
    rw [List.mem_filter, Db.mem_list_ssh_auths] at hauth
    exact .expired hauth.1 hi hw.le hauth.2
  have hlater : ∀ w, Since w₀ (i + 1) w → Since w₀ w₀.env.position w :=
    fun _ hw => hw.mono (Nat.le_succ_of_le hi)
  dsimp only
  split
  case isTrue hlimit =>
    exact (delete_ssh_auths_does fun _ _ _ hw => .crowded hi hw.le hlimit).weaken (fun _ hw => hw)
      (fun _ => hlater) fun _ _ h => h
  case isFalse => exact triple_pure hlater

theorem ask_for_approval_does (hop : op = .handleSshAction machineKey binding none) :
    DoesSsh cp op w₀ (cp.askForApproval machineKey binding) := by
  refine prune_ssh_auths_does.bind fun _ => ?_
  refine Triple.pre (P := At w₀ w₀.env.position fun _ => True) ?_ fun _ hw => ⟨trivial, hw⟩
  refine secret_bind ssh_deeds_quiet (Nat.le_refl _) fun i hi => ?_
  refine quiet_bind ssh_deeds_quiet (now_quiet cp) fun createdAt => ?_
  refine quiet_bind ssh_deeds_quiet (Calls.bind (calls_perform.mpr trivial) fun _ => calls_pure _)
    fun expiresAt => ?_
  refine Triple.bind (M := fun _ _ => True) ?_ fun _ => triple_done
  exact triple_store (fun _ _ => ⟨trivial, .ask hop hi rfl rfl⟩) (fun _ _ _ _ _ => trivial)
    fun _ _ _ _ _ => trivial

theorem respond_ssh_initial_does (hop : op = .handleSshAction machineKey binding none) :
    DoesSsh cp op w₀ (cp.respondSshInitial machineKey binding) := by
  refine quiet_bind ssh_deeds_quiet compile_nodes_quiet fun nodes => ?_
  dsimp only
  split
  · exact triple_done
  split
  · exact triple_done
  refine (recent_ssh_acceptance_does hop _).bind fun accepted => ?_
  cases accepted with
  | true => exact triple_done
  | false => exact (ask_for_approval_does hop).pre fun _ hw => hw rfl

/-! ## Waiting connections and verdicts -/

theorem verdict_action_does {P : World → Prop} (verdict : SshVerdict) :
    Triple handler (SshDeeds cp op w₀) P (ControlPlane.verdictAction verdict) (fun _ _ => True)
      (fun _ _ => True) := by
  cases verdict with
  | pending => exact triple_failed
  | accepted | rejected => exact triple_done

theorem wait_ssh_verdict_does (authId : String) (rounds : Nat) :
    DoesSsh cp op w₀ (cp.waitSshVerdict authId rounds) := by
  induction rounds with
  | zero => exact triple_failed
  | succ rounds ih =>
    refine (get_ssh_auth_does authId).bind fun found => ?_
    cases found with
    | none => exact triple_failed
    | some auth =>
      refine Triple.assume (fun _ hw => hw.2.symm) fun hstored => ?_
      refine Triple.pre (P := Unwritten w₀ w₀.env.position) ?_ fun _ hw => hw.1
      refine time_bind ssh_deeds_quiet (Nat.le_refl _) fun i hi => ?_
      dsimp only
      split
      case isTrue hpast =>
        refine Triple.bind (M := fun _ _ => True) ?_ fun _ =>
          triple_failed_bind
        exact delete_expired_does hstored hi hpast
      case isFalse =>
        split
        · exact triple_done
        · exact ih.pre fun _ hw => Unwritten.since hi hw

theorem respond_ssh_followup_does (machineKey : MachineKey) (binding : SshBinding)
    (authId : String) : DoesSsh cp op w₀ (cp.respondSshFollowup machineKey binding authId) := by
  refine time_bind ssh_deeds_quiet (Nat.le_refl _) fun i hi => ?_
  refine (live_ssh_auth_does hi).bind fun auth => ?_
  dsimp only
  split
  · exact triple_failed_bind
  split
  · exact verdict_action_does _
  refine Triple.pre (P := Unwritten w₀ w₀.env.position) ?_ fun _ hw => Unwritten.since hi hw.1
  exact quiet_bind ssh_deeds_quiet (calls_perform.mpr trivial) fun rounds =>
    (wait_ssh_verdict_does authId rounds).bind verdict_action_does

theorem handle_ssh_action_does
    {authId : Option String} (hop : op = .handleSshAction machineKey binding authId) :
    DoesSsh cp op w₀ (cp.handleSshAction machineKey binding authId) := by
  refine quiet_bind ssh_deeds_quiet (calls_store trivial) fun dst => ?_
  cases dst with
  | none => exact triple_failed
  | some dst =>
    dsimp only
    split
    · exact triple_failed_bind
    refine quiet_bind ssh_deeds_quiet (calls_store trivial) fun src => ?_
    cases src with
    | none => exact triple_failed
    | some src =>
      cases authId with
      | none => exact respond_ssh_initial_does hop
      | some authId => exact respond_ssh_followup_does machineKey binding authId

theorem settle_ssh_does {verdict : String → SshVerdict}
    (hsave : ∀ stored i, w₀.db.getSshAuth authId = some stored → w₀.env.position ≤ i →
      SshSave cp op w₀
        { stored with verdict := verdict (cp.ext.formatRfc3339 (w₀.env.clock i)) }) :
    DoesSsh cp op w₀ (cp.nowRfc3339 >>= fun now => cp.liveSshAuth authId now >>= fun entry =>
      store (.saveSshAuth { entry with verdict := verdict now })) := by
  refine time_bind ssh_deeds_quiet (Nat.le_refl _) fun i hi => ?_
  refine (live_ssh_auth_does hi).bind fun auth => ?_
  exact triple_store (fun _ hw => ⟨trivial, hsave auth i hw.2 hi⟩) (fun _ _ _ _ _ => trivial)
    fun _ _ _ _ _ => trivial

theorem ssh_auth_info_does (authId : String) : DoesSsh cp op w₀ (cp.sshAuthInfo authId) := by
  refine time_bind ssh_deeds_quiet (Nat.le_refl _) fun i hi => ?_
  refine (get_ssh_auth_does authId).bind fun found => ?_
  cases found with
  | none => exact triple_done
  | some auth =>
    refine Triple.assume (fun _ hw => hw.2.symm) fun hstored => ?_
    dsimp only
    split
    case isTrue hpast =>
      refine Triple.bind (M := fun _ _ => True) ?_ fun _ => triple_done
      exact (delete_expired_does hstored hi hpast).pre fun _ hw => hw.1
    case isFalse => exact triple_done

/-! ## Operations -/

theorem approve_ssh_does (hop : op = .approveSsh authId) :
    DoesSsh cp op w₀ (cp.approveSsh authId) := by
  refine settle_ssh_does fun stored i hstored hi => ?_
  obtain rfl : stored.authId = authId := (Db.get_ssh_auth_eq_some.mp hstored).1
  exact .approve hop hstored hi rfl

theorem reject_ssh_does (hop : op = .rejectSsh authId) :
    DoesSsh cp op w₀ (cp.rejectSsh authId) := by
  refine settle_ssh_does fun stored i hstored hi => ?_
  obtain rfl : stored.authId = authId := (Db.get_ssh_auth_eq_some.mp hstored).1
  exact .reject hop hstored rfl

theorem Op.does_ssh (hop : op.isSsh = true) : DoesSsh cp op w₀ (op.program cp) := by
  cases op with
  | handleSshAction machineKey binding authId =>
    exact (handle_ssh_action_does rfl).bind fun _ => triple_done
  | approveSsh authId => exact approve_ssh_does rfl
  | rejectSsh authId => exact reject_ssh_does rfl
  | sshAuthInfo authId => exact (ssh_auth_info_does authId).bind fun _ => triple_done
  | _ => cases hop

end Crabscale.Control
