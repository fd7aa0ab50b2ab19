import Crabscale.Control.KeyExpiry
import Crabscale.Control.NodeIds

/-!
# What an SSH approval was given for

An approval names its nodes by row id and outlives their rows, so it can admit a node that was
registered after it was given (`approval_recycled`). `approvals_belong_to_nodes`: this takes a new
node under an id that an accepted approval names.
-/

namespace Crabscale.Control

open Rust Proto Policy Interaction Interaction.Program

variable {cp : ControlPlane} {op : Op} {w : World}

/-! ## Verdicts -/

theorem reads_get_ssh_auth (authId : String) :
    Reads handler (store (.getSshAuth authId)) fun w => w.db.getSshAuth authId :=
  reads_store (c := .getSshAuth authId) (f := fun db => db.getSshAuth authId) fun _ => rfl

theorem live_ssh_auth_spec (cp : ControlPlane) (authId now : String) (w : World) :
    Yields (· = w) (cp.liveSshAuth authId now)
      (fun auth w' => w' = w ∧ w.db.getSshAuth authId = some auth ∧
        cp.ext.isPast auth.expiresAt now = false)
      (fun _ w' => w'.db.getSshAuth authId = none) := by
  refine triple_bind_run (safe_any _ _) (reads_get_ssh_auth authId w) ?_
  dsimp only
  cases hstored : w.db.getSshAuth authId with
  | none =>
    refine triple_throw ?_
    rintro _ rfl
    exact hstored
  | some auth =>
    dsimp only
    split
    case isTrue hpast =>
      refine Triple.bind (M := fun _ w' => w'.db.getSshAuth authId = none) (triple_store
        (fun _ _ => trivial) ?_ ?_) fun _ => triple_throw fun _ hw => hw
      all_goals
        rintro w' rfl answer db hrun
        obtain ⟨db', hdeleted, hget⟩ := w'.db.delete_ssh_auth_ok authId
        obtain ⟨hanswer, rfl⟩ := Prod.mk.inj (hrun.symm.trans hdeleted)
      · exact (hget authId).trans (if_pos rfl)
      · cases hanswer
    case isFalse hlive =>
      refine triple_pure ?_
      rintro _ rfl
      exact ⟨rfl, rfl, Bool.eq_false_of_not_eq_true hlive⟩

theorem settle_ssh_spec (cp : ControlPlane) (authId : String) (verdict : String → SshVerdict)
    (w : World) :
    Yields (· = w) (cp.nowRfc3339 >>= fun now => cp.liveSshAuth authId now >>= fun entry =>
        store (.saveSshAuth { entry with verdict := verdict now }))
      (fun _ w' => ∃ auth, w.db.getSshAuth authId = some auth ∧
        cp.ext.isPast auth.expiresAt (cp.nowAt w) = false ∧ ∀ id, w'.db.getSshAuth id =
          if authId = id then some { auth with verdict := verdict (cp.nowAt w) }
          else w.db.getSshAuth id)
      (fun _ w' => w'.db.getSshAuth authId = none) := by
  refine triple_bind_run (safe_any _ _) (now_run cp w) ?_
  refine (live_ssh_auth_spec cp authId (cp.nowAt w) w.tick).bind fun auth => ?_
  refine triple_store (fun _ _ => trivial) ?_ ?_
  all_goals
    rintro _ ⟨rfl, hstored, hlive⟩ answer db hrun
    obtain rfl : auth.authId = authId := (Db.get_ssh_auth_eq_some.mp hstored).1
    obtain ⟨db', hsaved, hget⟩ := w.tick.db.save_ssh_auth_ok
      { auth with verdict := verdict (cp.nowAt w) }
    obtain ⟨hanswer, rfl⟩ := Prod.mk.inj (hrun.symm.trans hsaved)
  · exact ⟨auth, hstored, hlive, hget⟩
  · cases hanswer

/-! ## Where accepted approvals come from -/

/-- Every accepted approval was accepted when the operation started, or the operation approved
it. -/
def AcceptedFrom (op : Op) (w₀ w : World) : Prop :=
  ∀ authId auth, w.db.getSshAuth authId = some auth → auth.verdict.isAccepted = true →
    ∃ stored, w₀.db.getSshAuth authId = some stored ∧ stored.binding = auth.binding ∧
      (stored.verdict.isAccepted = true ∨ op = .approveSsh authId)

theorem SshSave.accepted_from {w₀ : World} {auth : SshAuth} (h : SshSave cp op w₀ auth)
    (haccepted : auth.verdict.isAccepted = true) :
    ∃ stored, w₀.db.getSshAuth auth.authId = some stored ∧ stored.binding = auth.binding ∧
      (stored.verdict.isAccepted = true ∨ op = .approveSsh auth.authId) := by
  cases h with
  | ask _ _ _ hverdict =>
    rw [hverdict] at haccepted
    cases haccepted
  | @renew _ stored _ _ _ hstored hbefore _ hauth =>
    subst hauth
    exact ⟨stored, hstored, rfl, .inl (by rw [hbefore]; rfl)⟩
  | @approve stored _ hop hstored _ hauth =>
    subst hauth
    exact ⟨stored, hstored, rfl, .inr hop⟩
  | reject _ _ hauth =>
    subst hauth
    cases haccepted

theorem AcceptedFrom.call {w₀ : World} {c : Call} (h : AcceptedFrom op w₀ w)
    (hc : SshActs cp op w₀ w c) : AcceptedFrom op w₀ (handler c w).2 := by
  intro authId auth hauth haccepted
  obtain hsame | ⟨saved, rfl, rfl, hsaved⟩ | ⟨-, hdeleted⟩ := c.get_ssh_auth_cases w authId
  · exact h authId auth (hsame.symm.trans hauth) haccepted
  · cases hsaved.symm.trans hauth
    exact SshSave.accepted_from hc haccepted
  · cases hdeleted.symm.trans hauth

theorem Op.accepted_from (op : Op) (w : World) : AcceptedFrom op w (op.exec cp w) :=
  Op.keeps_ssh (fun _ _ hw hc => hw.call hc) fun _ auth hauth haccepted =>
    ⟨auth, hauth, rfl, .inl haccepted⟩

/-! ## Runs -/

abbrev ApprovedIn : Type := String → Option Db

def noteApproval (cp : ControlPlane) (w : World) (op : Op) (approvedIn : ApprovedIn) : ApprovedIn :=
  match op with
  | .approveSsh authId =>
    match (exec (cp.approveSsh authId) w).1 with
    | .ok _ => Function.update approvedIn authId (some w.db)
    | .error _ => approvedIn
  | _ => approvedIn

/-- A registration of a new node does not get an id that an accepted approval names. -/
def SparesApproved (w : World) (_ : ApprovedIn) (op : Op) : Prop :=
  op.Enrolls w → ∀ auth, w.db.getSshAuth auth.authId = some auth → auth.verdict.isAccepted = true →
    auth.srcNodeId ≠ w.db.nextId ∧ auth.dstNodeId ≠ w.db.nextId

/-- Runs of operations in which no new node gets an id that an accepted approval names, with the
store in which each approval was last given. -/
abbrev SshRuns (cp : ControlPlane) (start : World) : World → ApprovedIn → Prop :=
  Noted (fun w op => op.exec cp w) (noteApproval cp) SparesApproved start fun _ => none

def StillDenotes (db : Db) (w : World) (id : Nat) : Prop :=
  w.db.keyOf id = db.keyOf id ∨ w.db.keyOf id = none

def ApprovalsDenote (w : World) (approvedIn : ApprovedIn) : Prop :=
  ∀ authId auth, w.db.getSshAuth authId = some auth → auth.verdict.isAccepted = true →
    ∃ db, approvedIn authId = some db ∧ StillDenotes db w auth.srcNodeId ∧
      StillDenotes db w auth.dstNodeId

theorem StillDenotes.step {db : Db} {id : Nat} (h : StillDenotes db w id)
    (hspared : op.Enrolls w → id ≠ w.db.nextId) : StillDenotes db (op.exec cp w) id := by
  rcases Op.key_or_none hspared with hsame | hnone
  · unfold StillDenotes
    rw [hsame]
    exact h
  · exact .inr hnone

theorem nodes_approve_ssh (authId : String) :
    ((Op.approveSsh authId).exec cp w).db.nodes = w.db.nodes :=
  (Op.does_ssh rfl).invariant (fun w' _ h hc => (hc.1.nodes_eq w').trans h) ⟨rfl, .refl w⟩ rfl

theorem note_approval_other {authId : String} (hop : op ≠ .approveSsh authId)
    (approvedIn : ApprovedIn) : noteApproval cp w op approvedIn authId = approvedIn authId := by
  cases op with
  | approveSsh approved =>
    have hne : authId ≠ approved := fun h => hop (by rw [h])
    unfold noteApproval
    dsimp only
    cases (exec (cp.approveSsh approved) w).1 with
    | ok _ => exact Function.update_of_ne hne ..
    | error _ => rfl
  | _ => rfl

theorem ApprovalsDenote.step {approvedIn : ApprovedIn} (h : ApprovalsDenote w approvedIn)
    (hspares : SparesApproved w approvedIn op) :
    ApprovalsDenote (op.exec cp w) (noteApproval cp w op approvedIn) := by
  intro authId auth hauth haccepted
  obtain ⟨stored, hstored, hbinding, hbefore⟩ := op.accepted_from w authId auth hauth haccepted
  have hsrc : stored.srcNodeId = auth.srcNodeId := congrArg SshBinding.srcNodeId hbinding
  have hdst : stored.dstNodeId = auth.dstNodeId := congrArg SshBinding.dstNodeId hbinding
  by_cases hop : op = .approveSsh authId
  · -- The approval was given just now, and the nodes are the same.
    subst hop
    cases hresult : exec (cp.approveSsh authId) w with
    | mk result w' =>
      have hw' : (Op.approveSsh authId).exec cp w = w' := congrArg Prod.snd hresult
      cases result with
      | error error =>
        have hnone : w'.db.getSshAuth authId = none :=
          (settle_ssh_spec cp authId .accepted w).error rfl hresult
        rw [hw', hnone] at hauth
        cases hauth
      | ok _ =>
        refine ⟨w.db, ?_, .inl (Db.key_of_congr (nodes_approve_ssh authId) _),
          .inl (Db.key_of_congr (nodes_approve_ssh authId) _)⟩
        simp only [noteApproval, hresult, Function.update_self]
  · obtain ⟨db, hnoted, hkeptSrc, hkeptDst⟩ := h authId stored hstored (hbefore.resolve_right hop)
    have hid : stored.authId = authId := (Db.get_ssh_auth_eq_some.mp hstored).1
    have hspared (henrolls : op.Enrolls w) := hspares henrolls stored (hid ▸ hstored)
      (hbefore.resolve_right hop)
    rw [note_approval_other hop, ← hsrc, ← hdst]
    exact ⟨db, hnoted, hkeptSrc.step fun henrolls => (hspared henrolls).1,
      hkeptDst.step fun henrolls => (hspared henrolls).2⟩

theorem handle_ssh_action_nodes {machineKey : MachineKey} {binding : SshBinding}
    {authId : Option String} {action : SshAction} {w' : World}
    (h : exec (cp.handleSshAction machineKey binding authId) w = (.ok action, w')) :
    w.db.keyOf binding.srcNodeId ≠ none ∧ w.db.keyOf binding.dstNodeId ≠ none := by
  have hspec : Yields (· = w) (cp.handleSshAction machineKey binding authId)
      (fun _ _ => w.db.keyOf binding.srcNodeId ≠ none ∧ w.db.keyOf binding.dstNodeId ≠ none) := by
    refine triple_bind_run (safe_any _ _) (reads_get_node_by_id binding.dstNodeId w) ?_
    dsimp only
    cases hdst : w.db.getNodeById binding.dstNodeId with
    | none => exact triple_failed
    | some dst =>
      dsimp only
      split
      · exact triple_failed_bind
      refine triple_bind_run (safe_any _ _) (reads_get_node_by_id binding.srcNodeId w) ?_
      dsimp only
      cases hsrc : w.db.getNodeById binding.srcNodeId with
      | none => exact triple_failed
      | some src =>
        have hboth : w.db.keyOf binding.srcNodeId ≠ none ∧
          w.db.keyOf binding.dstNodeId ≠ none := by
          simp [Db.keyOf, hsrc, hdst]
        refine (any_triple _ _).weaken (fun _ h => h) (fun _ _ _ => hboth) fun _ _ h => h
  exact hspec.ok rfl h

/-- In every run in which no new node gets an id that an accepted approval names, the source and the
destination of an approval that admits a connection are the nodes that they were when the approval
was given. -/
theorem approvals_belong_to_nodes (cp : ControlPlane) (start w : World) (approvedIn : ApprovedIn)
    (hstart : ∀ auth, start.db.getSshAuth auth.authId = some auth → auth.verdict.isAccepted = false)
    (hrun : SshRuns cp start w approvedIn) (machineKey : MachineKey) (binding : SshBinding)
    (authId : Option String) (w' : World)
    (haccepts : exec (cp.handleSshAction machineKey binding authId) w = (.ok acceptAction, w'))
    (auth : SshAuth) (hstored : w.db.getSshAuth auth.authId = some auth)
    (haccepted : auth.verdict.isAccepted = true) (hbinding : auth.binding = binding) :
    ∃ db, approvedIn auth.authId = some db ∧
      db.keyOf auth.srcNodeId = w.db.keyOf auth.srcNodeId ∧
      db.keyOf auth.dstNodeId = w.db.keyOf auth.dstNodeId := by
  subst hbinding
  obtain ⟨hsrc, hdst⟩ := handle_ssh_action_nodes haccepts
  have hdenote : ApprovalsDenote w approvedIn := by
    refine hrun.invariant (fun _ _ _ hw hspares => hw.step hspares) ?_
    intro authId auth hauth hverdict
    have hid : auth.authId = authId := (Db.get_ssh_auth_eq_some.mp hauth).1
    rw [hstart auth (hid ▸ hauth)] at hverdict
    cases hverdict
  obtain ⟨db, hnoted, hkeptSrc, hkeptDst⟩ := hdenote auth.authId auth hstored haccepted
  exact ⟨db, hnoted, (hkeptSrc.resolve_right hsrc).symm, (hkeptDst.resolve_right hdst).symm⟩

/-! ## An approval for another node -/

def checkServer : ControlPlane :=
  { timedServer with
    config :=
      { timedServer.config with
        policy :=
          { ssh := [{ action := "check", src := ["*"], dst := ["*"], users := ["root"] }] } } }

def secondToFirst : SshBinding :=
  { srcNodeId := 2, dstNodeId := 1, sshUser := "root", localUser := "" }

def askForShell : Op := .handleSshAction ⟨1⟩ secondToFirst none

/-- The second row's connection waits for an administrator. -/
def shellAsked : World :=
  runOps checkServer [registerFirst, .createPreAuthKey "guest" true true none none, registerGuest 2,
    askForShell] (checkServer.withStore Db.empty stillEnv)

def shellApproved : World := (Op.approveSsh "token").exec checkServer shellAsked

/-- The approval of the connection, as it is stored. -/
def shellAuth : SshAuth where
  authId := "token"
  srcNodeId := 2
  dstNodeId := 1
  sshUser := "root"
  localUser := ""
  machineKey := ⟨1⟩
  createdAt := "0"
  expiresAt := "900"
  verdict := .accepted "0"

theorem shell_auth_stored : shellApproved.db.getSshAuth "token" = some shellAuth := by
  decide +kernel

theorem shell_not_accepted (auth : SshAuth)
    (h : shellAsked.db.getSshAuth auth.authId = some auth) : auth.verdict.isAccepted = false := by
  have hnone : ∀ row ∈ shellAsked.db.sshAuths, row.auth.verdict.isAccepted = false := by
    decide +kernel
  obtain ⟨-, row, hrow, rfl⟩ := Db.get_ssh_auth_eq_some.mp h
  exact hnone row hrow

def shellNoted : ApprovedIn :=
  noteApproval checkServer shellAsked (.approveSsh "token") fun _ => none

/-- The approval admits the node that it was given for. -/
theorem approvals_belong_to_nodes_shell :
    (exec (checkServer.handleSshAction ⟨1⟩ secondToFirst none) shellApproved).1 = .ok acceptAction ∧
    ∃ db, shellNoted "token" = some db ∧ db.keyOf 2 = shellApproved.db.keyOf 2 ∧
      db.keyOf 1 = shellApproved.db.keyOf 1 := by
  have haccepts : (exec (checkServer.handleSshAction ⟨1⟩ secondToFirst none) shellApproved).1 =
      .ok acceptAction := by
    decide +kernel
  have hrun : SshRuns checkServer shellAsked shellApproved shellNoted := by
    refine .step .refl ?_
    rintro ⟨nodeKey, hregisters, -⟩
    cases hregisters
  exact ⟨haccepts, approvals_belong_to_nodes checkServer shellAsked shellApproved shellNoted
    shell_not_accepted hrun ⟨1⟩ secondToFirst none _ (Prod.ext haccepts rfl) shellAuth
    shell_auth_stored rfl rfl⟩

/-- The second node left, and the third one registered. -/
def shellRecycled : World :=
  runOps checkServer [.logout ⟨2⟩ ⟨2⟩, .register ⟨3⟩ (registerRequest 3)] shellApproved

/-- The approval that was given for the second node admits the third one. -/
theorem approval_recycled :
    (exec (checkServer.approveSsh "token") shellAsked).1 = .ok () ∧
    shellAsked.db.keyOf 2 = some ⟨2⟩ ∧ shellRecycled.db.keyOf 2 = some ⟨3⟩ ∧
    shellRecycled.db.getSshAuth "token" = some shellAuth ∧
    (exec (checkServer.handleSshAction ⟨1⟩ secondToFirst none) shellRecycled).1 =
      .ok acceptAction := by
  decide +kernel

end Crabscale.Control
