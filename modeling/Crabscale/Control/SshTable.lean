import Crabscale.Control.SshAcceptance
import Crabscale.Control.SshPeriod

/-!
# How many SSH approvals are kept

A connection that asks for an approval drops what has expired and the oldest approvals above the
limit, and then stores its own: so there can be one more than the limit (`ssh_auths_over_limit`).
`ssh_auths_bounded`: not in a run in which nothing asks while the table is full.
-/

namespace Crabscale.Control

open Rust Proto Policy Interaction Interaction.Program ControlPlane

variable {cp : ControlPlane} {op : Op} {w₀ w : World}

/-! ## Counting approvals -/

namespace Db

variable {db : Db}

def sshAuthIds (db : Db) : List String := db.sshAuths.map fun row => row.auth.authId

def StoredWithin (ids : List String) (db : Db) : Prop :=
  ∀ authId auth, db.getSshAuth authId = some auth → authId ∈ ids

theorem mem_ssh_auth_ids {authId : String} :
    authId ∈ db.sshAuthIds ↔ ∃ auth, db.getSshAuth authId = some auth := by
  simp only [sshAuthIds, List.mem_map, get_ssh_auth_eq_some]
  constructor
  · rintro ⟨row, hrow, rfl⟩
    exact ⟨row.auth, rfl, row, hrow, rfl⟩
  · rintro ⟨_, rfl, row, hrow, rfl⟩
    exact ⟨row, hrow, rfl⟩

theorem stored_within_self (db : Db) : db.StoredWithin db.sshAuthIds :=
  fun _ auth hauth => mem_ssh_auth_ids.mpr ⟨auth, hauth⟩

theorem StoredWithin.length_le {ids : List String} (h : db.StoredWithin ids) :
    db.sshAuths.length ≤ ids.length := by
  have hsubset : db.sshAuthIds ⊆ ids := by
    intro authId hmem
    obtain ⟨auth, hauth⟩ := mem_ssh_auth_ids.mp hmem
    exact h authId auth hauth
  have hle := (List.subperm_of_subset db.valid.sshAuthIds hsubset).length_le
  rwa [List.length_map] at hle

end Db

theorem ssh_auths_length_le {c : Call} (hc : ∀ auth, c ≠ .store (.saveSshAuth auth)) (w : World) :
    (handler c w).2.db.sshAuths.length ≤ w.db.sshAuths.length := by
  have hwithin : (handler c w).2.db.StoredWithin w.db.sshAuthIds := by
    intro authId auth hauth
    obtain hsame | ⟨saved, rfl, -⟩ | ⟨-, hnone⟩ := c.get_ssh_auth_cases w authId
    · exact Db.mem_ssh_auth_ids.mpr ⟨auth, hsame.symm.trans hauth⟩
    · exact absurd rfl (hc saved)
    · cases hnone.symm.trans hauth
  exact hwithin.length_le.trans (List.length_map _).le

theorem save_ssh_auth_within {ids : List String} (h : w.db.StoredWithin ids) (saved : SshAuth) :
    (handler (.store (.saveSshAuth saved)) w).2.db.StoredWithin (saved.authId :: ids) := by
  intro authId auth hauth
  rw [Call.get_ssh_auth] at hauth
  by_cases hid : saved.authId = authId
  · exact hid ▸ List.mem_cons_self
  · exact List.mem_cons_of_mem _ (h authId auth ((if_neg hid).symm.trans hauth))

/-! ## Why approvals are saved -/

/-- A connection has to ask an administrator: it is under a check rule, and was not accepted within
the check period. -/
def Op.AsksApproval (cp : ControlPlane) (w : World) (op : Op) : Prop :=
  ∃ machineKey binding rule checkPeriod, op = .handleSshAction machineKey binding none ∧
    firstMatchingSshRule (compileSshPolicy cp.config.policy w.compileNodes) binding.srcNodeId
      binding.dstNodeId binding.sshUser = some rule ∧
    rule.action = .check checkPeriod ∧ ¬AcceptedWithin cp binding checkPeriod w

/-- The approvals are some of those that have not expired, and not more than are kept. -/
def Pruned (cp : ControlPlane) (w₀ w : World) : Prop :=
  ∃ i ids, w₀.env.position ≤ i ∧ i < w.env.position ∧
    ids.length ≤ min defaultSshAuthLimit (unexpiredAt cp w₀ i).length ∧ w.db.StoredWithin ids

/-- An operation that started in `w₀` saves an approval over itself, or asks for one after the table
was pruned. -/
def FillsSsh (cp : ControlPlane) (op : Op) (w₀ w : World) : Call → Prop
  | .store (.saveSshAuth auth) =>
    (∃ stored, w.db.getSshAuth auth.authId = some stored) ∨
      op.AsksApproval cp w₀ ∧ Pruned cp w₀ w
  | _ => True

theorem Call.OffSsh.fills_ssh {c : Call} (hc : c.OffSsh) : FillsSsh cp op w₀ w c := by
  cases c with
  | store c => cases c <;> first | exact hc.elim | trivial
  | memory c => trivial
  | env c => trivial

theorem fills_ssh_quiet : AllowsQuiet (FillsSsh cp op w₀) :=
  fun _ _ hc => hc.off_ssh.fills_ssh

theorem delete_ssh_auths_leaves {n : Nat} (entries : List SshAuth) (P : String → SshAuth → Prop) :
    Triple handler (FillsSsh cp op w₀)
      (fun w => Since w₀ n w ∧ ∀ authId auth, w.db.getSshAuth authId = some auth → P authId auth)
      (ControlPlane.deleteSshAuths entries)
      (fun _ w => Since w₀ n w ∧ ∀ authId auth, w.db.getSshAuth authId = some auth →
        P authId auth ∧ authId ∉ entries.map SshAuth.authId)
      (fun _ _ => True) := by
  induction entries generalizing P with
  | nil =>
    refine triple_pure fun w hw => ⟨hw.1, fun authId auth hauth => ⟨hw.2 authId auth hauth, ?_⟩⟩
    exact List.not_mem_nil
  | cons entry entries ih =>
    refine Triple.bind (M := fun _ w => Since w₀ n w ∧ ∀ authId auth,
      w.db.getSshAuth authId = some auth → P authId auth ∧ authId ≠ entry.authId)
      (triple_store (fun _ _ => trivial) ?_ fun _ _ _ _ _ => trivial) fun _ => ?_
    · intro w hw _ db hrun
      refine ⟨⟨hw.1.env, hw.1.le⟩, fun authId auth hauth => ?_⟩
      have hdb : (handler (.store (.deleteSshAuth entry.authId)) w).2.db = db :=
        congrArg Prod.snd hrun
      have hafter : (if entry.authId = authId then none else w.db.getSshAuth authId) =
          some auth := by
        rw [← hauth, ← hdb]
        exact (Call.get_ssh_auth (.store (.deleteSshAuth entry.authId)) w authId).symm
      split_ifs at hafter with hid
      exact ⟨hw.2 authId auth hafter, fun h => hid h.symm⟩
    · refine (ih _).weaken (fun _ hw => hw) (fun _ w hw => ⟨hw.1, fun authId auth hauth => ?_⟩)
        fun _ _ h => h
      obtain ⟨⟨hP, hne⟩, hnot⟩ := hw.2 authId auth hauth
      exact ⟨hP, by simp [hne, hnot]⟩

/-- After the table was pruned, there are no expired approvals in it and not more than are kept. -/
theorem prune_ssh_auths_leaves :
    Triple handler (FillsSsh cp op w₀) (Unwritten w₀ w₀.env.position)
      (cp.pruneSshAuths defaultSshAuthLimit)
      (fun _ w => Since w₀ w₀.env.position w ∧ Pruned cp w₀ w) (fun _ _ => True) := by
  refine time_bind fills_ssh_quiet (Nat.le_refl _) fun i hi => ?_
  have hentries : Triple handler (FillsSsh cp op w₀) (Unwritten w₀ (i + 1)) (store .listSshAuths)
      (fun entries w => Unwritten w₀ (i + 1) w ∧ entries = w₀.db.listSshAuths)
      (fun _ _ => True) := by
    refine triple_store (fun _ _ => trivial) ?_ fun _ _ _ _ _ => trivial
    intro w hw result db hrun
    cases hrun
    exact ⟨hw, congrArg Db.listSshAuths hw.1⟩
  refine hentries.bind fun entries => Triple.assume (fun _ hw => hw.2) ?_
  rintro rfl
  -- What is left after the expired approvals are gone has not expired.
  refine Triple.bind (M := fun _ w => Since w₀ (i + 1) w ∧ ∀ authId auth,
    w.db.getSshAuth authId = some auth → auth.authId = authId ∧ auth ∈ unexpiredAt cp w₀ i)
    ((delete_ssh_auths_leaves (n := i + 1) _ fun authId auth =>
      w₀.db.getSshAuth authId = some auth).weaken ?_ ?_ fun _ _ h => h) fun _ => ?_
  · intro w hw
    refine ⟨hw.1.2, fun authId auth hauth => ?_⟩
    rwa [hw.1.1] at hauth
  · intro _ w hw
    refine ⟨hw.1, fun authId auth hauth => ?_⟩
    obtain ⟨hstored, hnot⟩ := hw.2 authId auth hauth
    obtain rfl : auth.authId = authId := (Db.get_ssh_auth_eq_some.mp hstored).1
    have hlisted := Db.mem_list_ssh_auths.mpr hstored
    refine ⟨rfl, List.mem_filter.mpr ⟨hlisted, ?_⟩⟩
    simp only [Bool.not_eq_true']
    refine Bool.eq_false_iff.mpr fun hpast => hnot ?_
    exact List.mem_map.mpr ⟨auth, List.mem_filter.mpr ⟨hlisted, hpast⟩, rfl⟩
  have hends (ids : List String)
      (hids : ids.length ≤ min defaultSshAuthLimit (unexpiredAt cp w₀ i).length) {w : World}
      (hw : Since w₀ (i + 1) w) (hwithin : w.db.StoredWithin ids) :
      Since w₀ w₀.env.position w ∧ Pruned cp w₀ w :=
    ⟨hw.mono (Nat.le_succ_of_le hi), i, ids, hi, hw.le, hids, hwithin⟩
  dsimp only
  split
  case isFalse hfew =>
    refine triple_pure fun w hw => hends ((unexpiredAt cp w₀ i).map SshAuth.authId) ?_ hw.1
      fun authId auth hauth => ?_
    · rw [List.length_map]
      exact le_min (not_lt.mp hfew) (Nat.le_refl _)
    · obtain ⟨hid, hmem⟩ := hw.2 authId auth hauth
      exact List.mem_map.mpr ⟨auth, hmem, hid⟩
  case isTrue hcrowded =>
    let sorted := (unexpiredAt cp w₀ i).insertionSort fun a b => a.createdAt ≤ b.createdAt
    let overflow := (unexpiredAt cp w₀ i).length - defaultSshAuthLimit
    refine (delete_ssh_auths_leaves (sorted.take overflow) _).weaken (fun _ hw => hw) ?_
      fun _ _ h => h
    intro _ w hw
    refine hends ((sorted.drop overflow).map SshAuth.authId) ?_ hw.1
      fun authId auth hauth => ?_
    · rw [List.length_map, List.length_drop, List.length_insertionSort]
      have : defaultSshAuthLimit < (unexpiredAt cp w₀ i).length := hcrowded
      omega
    · obtain ⟨⟨hid, hmem⟩, hnot⟩ := hw.2 authId auth hauth
      have hsorted : auth ∈ sorted.take overflow ++ sorted.drop overflow := by
        rw [List.take_append_drop]
        exact (List.perm_insertionSort _ _).mem_iff.mpr hmem
      obtain htaken | hkept := List.mem_append.mp hsorted
      · exact absurd (List.mem_map.mpr ⟨auth, htaken, hid⟩) hnot
      · exact List.mem_map.mpr ⟨auth, hkept, hid⟩

theorem ask_for_approval_fills (hasks : op.AsksApproval cp w₀) (machineKey : MachineKey)
    (binding : SshBinding) :
    Triple handler (FillsSsh cp op w₀) (Unwritten w₀ w₀.env.position)
      (cp.askForApproval machineKey binding) (fun _ _ => True) (fun _ _ => True) := by
  refine prune_ssh_auths_leaves.bind fun _ => ?_
  refine Triple.pre (P := fun w => ∃ i ids,
    (w₀.env.position ≤ i ∧ ids.length ≤ min defaultSshAuthLimit (unexpiredAt cp w₀ i).length) ∧
      At w₀ (i + 1) (Db.StoredWithin ids) w) (triple_exists fun i => triple_exists fun ids => ?_) ?_
  · refine Triple.assume (fun _ hw => hw.1) fun hpruned => ?_
    refine Triple.pre (P := At w₀ (i + 1) (Db.StoredWithin ids)) ?_ fun _ hw => hw.2
    refine quiet_bind fills_ssh_quiet (calls_perform.mpr trivial) fun authId => ?_
    refine quiet_bind fills_ssh_quiet (now_quiet cp) fun createdAt => ?_
    refine quiet_bind fills_ssh_quiet (Calls.bind (calls_perform.mpr trivial) fun _ => calls_pure _)
      fun expiresAt => ?_
    refine Triple.bind (M := fun _ _ => True) ?_ fun _ => triple_done
    refine triple_store (fun w hw => .inr ⟨hasks, i, ids, hpruned.1, hw.2.le, hpruned.2, hw.1⟩)
      (fun _ _ _ _ _ => trivial) fun _ _ _ _ _ => trivial
  · rintro w ⟨hsince, i, ids, hi, hlater, hids, hwithin⟩
    exact ⟨i, ids, ⟨hi, hids⟩, hwithin, hsince.env, hlater⟩

theorem handle_ssh_new_fills {machineKey : MachineKey} {binding : SshBinding}
    (hop : op = .handleSshAction machineKey binding none) :
    Triple handler (FillsSsh cp op w₀) (· = w₀) (cp.handleSshAction machineKey binding none)
      (fun _ _ => True) (fun _ _ => True) := by
  have hnode (nodeId : Nat) : (store (.getNodeById nodeId)).Calls Call.Quiet := calls_store trivial
  refine triple_bind_run (quiet_safe (hnode _) fills_ssh_quiet w₀) (reads_get_node_by_id _ w₀) ?_
  dsimp only
  cases w₀.db.getNodeById binding.dstNodeId with
  | none => exact triple_failed
  | some dst =>
    dsimp only
    split
    · exact triple_failed_bind
    refine triple_bind_run (quiet_safe (hnode _) fills_ssh_quiet w₀) (reads_get_node_by_id _ w₀) ?_
    dsimp only
    cases w₀.db.getNodeById binding.srcNodeId with
    | none => exact triple_failed
    | some src =>
      refine triple_bind_run (quiet_safe compile_nodes_quiet fills_ssh_quiet w₀)
        (reads_compile_nodes w₀) ?_
      dsimp only
      split
      · exact triple_done
      rename_i rule hrule
      split
      · exact triple_done
      rename_i checkPeriod haction
      refine ((recent_ssh_acceptance_spec cp fills_ssh_quiet binding checkPeriod w₀ ?_).weaken
        (fun _ hw => hw) (fun _ _ h => h) fun _ _ _ => trivial).bind fun accepted => ?_
      · intro found w' verdict hstored hdb
        exact .inl ⟨found, hdb ▸ hstored⟩
      cases accepted with
      | true => exact triple_done
      | false =>
        refine Triple.assume (fun _ hw => hw.1) fun hrecent => ?_
        have hasks : op.AsksApproval cp w₀ := ⟨machineKey, binding, rule, checkPeriod, hop, hrule,
          haction, fun h => Bool.false_ne_true (hrecent.mpr h)⟩
        refine (ask_for_approval_fills hasks machineKey binding).pre fun w hw => ?_
        rw [hw.2 rfl]
        exact ⟨rfl, (Since.refl w₀).call (.env .now)⟩

/-! ## Runs -/

theorem ssh_auths_not_added (hop : ∀ machineKey binding,
    op ≠ .handleSshAction machineKey binding none) (w₀ : World) :
    (op.exec cp w₀).db.sshAuths.length ≤ w₀.db.sshAuths.length := by
  have hwithin : (op.exec cp w₀).db.StoredWithin w₀.db.sshAuthIds := by
    refine Op.keeps_ssh (I := fun w => w.db.StoredWithin w₀.db.sshAuthIds) ?_
      w₀.db.stored_within_self
    intro w c hw hc authId auth hauth
    obtain hsame | ⟨saved, rfl, hid, -⟩ | ⟨-, hnone⟩ := c.get_ssh_auth_cases w authId
    · exact hw authId auth (hsame.symm.trans hauth)
    · rw [← hid, Db.mem_ssh_auth_ids]
      cases hc with
      | ask hnew => exact absurd hnew (hop _ _)
      | renew _ hstored _ _ hsaved => exact hsaved ▸ ⟨_, hstored⟩
      | approve _ hstored _ hsaved => exact hsaved ▸ ⟨_, hstored⟩
      | reject _ hstored hsaved => exact hsaved ▸ ⟨_, hstored⟩
    · cases hnone.symm.trans hauth
  exact hwithin.length_le.trans (List.length_map _).le

/-- There is room in the table when an approval is asked for, among what has not expired at any
reading of the clock by the operation. -/
def HasSshRoom (cp : ControlPlane) (w : World) (op : Op) : Prop :=
  op.AsksApproval cp w → ∀ i, w.env.position ≤ i → i < (op.exec cp w).env.position →
    (unexpiredAt cp w i).length < defaultSshAuthLimit

theorem fills_ssh_call {n : Nat} (hroom : op.AsksApproval cp w₀ → ∀ i, w₀.env.position ≤ i → i < n →
    (unexpiredAt cp w₀ i).length < defaultSshAuthLimit) {c : Call}
    (h : w.db.sshAuths.length ≤ defaultSshAuthLimit) (hc : FillsSsh cp op w₀ w c)
    (hn : w.env.position ≤ n) : (handler c w).2.db.sshAuths.length ≤ defaultSshAuthLimit := by
  by_cases hsaves : ∃ auth, c = .store (.saveSshAuth auth)
  · obtain ⟨auth, rfl⟩ := hsaves
    obtain ⟨stored, hstored⟩ | ⟨hasks, i, ids, hi, hlater, hids, hwithin⟩ := hc
    · have hover : (handler (.store (.saveSshAuth auth)) w).2.db.StoredWithin w.db.sshAuthIds := by
        intro authId found hfound
        obtain rfl | hmem := List.mem_cons.mp
          (save_ssh_auth_within w.db.stored_within_self auth authId found hfound)
        · exact Db.mem_ssh_auth_ids.mpr ⟨stored, hstored⟩
        · exact hmem
      exact (hover.length_le.trans (List.length_map _).le).trans h
    · have hadded := (save_ssh_auth_within hwithin auth).length_le
      have := hroom hasks i hi (hlater.trans_le hn)
      rw [List.length_cons] at hadded
      omega
  · exact (ssh_auths_length_le (fun auth heq => hsaves ⟨auth, heq⟩) w).trans h

theorem ssh_auths_step (hroom : HasSshRoom cp w op)
    (h : w.db.sshAuths.length ≤ defaultSshAuthLimit) :
    (op.exec cp w).db.sshAuths.length ≤ defaultSshAuthLimit := by
  by_cases hnew : ∃ machineKey binding, op = .handleSshAction machineKey binding none
  · obtain ⟨machineKey, binding, hop⟩ := hnew
    have hsafe : (op.program cp).Safe handler (FillsSsh cp op w) w := by
      have hhandle : (cp.handleSshAction machineKey binding none).Safe handler (FillsSsh cp op w)
          w := (handle_ssh_new_fills hop w rfl).1
      rw [hop] at hhandle ⊢
      exact safe_bind hhandle fun _ _ _ => trivial
    -- The clock is read before the end of the operation.
    refine Safe.invariant (I := fun w' => w'.env.position ≤ (op.exec cp w).env.position →
      w'.db.sshAuths.length ≤ defaultSshAuthLimit) ?_ hsafe (fun _ => h) (Nat.le_refl _)
    intro w' c hw' hc hn
    have hbefore := ((Since.refl w').call c).le.trans hn
    exact fills_ssh_call hroom (hw' hbefore) hc hbefore
  · push Not at hnew
    exact (ssh_auths_not_added hnew w).trans h

/-- There are never more unexpired approvals than the limit, in every run from an empty table in
which nothing asks for an approval while the table is full. -/
theorem ssh_auths_bounded (cp : ControlPlane) (start w : World) (hempty : start.db.sshAuths = [])
    (hrun : Runs cp (HasSshRoom cp) (fun _ => True) start w) (i : Nat) :
    (unexpiredAt cp w i).length ≤ defaultSshAuthLimit := by
  refine (length_unexpired_at cp w i).trans ?_
  induction hrun with
  | refl _ => exact hempty ▸ Nat.zero_le _
  | step _ hroom _ ih => exact ssh_auths_step hroom ih

/-! ## One approval too many -/

/-- Secrets that never repeat, and a clock that stands still. -/
def crowdEnv : Env :=
  { clockEnv stillClock with secrets := fun i => String.ofList (List.replicate i 'x') }

/-- Two nodes registered. -/
def crowdStart : World :=
  runOps checkServer [registerFirst, .register ⟨2⟩ (registerRequest 2)]
    (checkServer.withStore Db.empty crowdEnv)

theorem ssh_auths_bounded_shell :
    crowdStart.db.sshAuths = [] ∧
      (unexpiredAt checkServer (askForShell.exec checkServer crowdStart) 0).length ≤
        defaultSshAuthLimit := by
  have hempty : crowdStart.db.sshAuths = [] := by decide +kernel
  refine ⟨hempty, ssh_auths_bounded checkServer crowdStart _ hempty
    (.step (.refl trivial) (fun _ i _ _ => ?_) trivial) 0⟩
  have hnone := length_unexpired_at checkServer crowdStart i
  rw [hempty] at hnone
  exact (Nat.le_zero.mp hnone).trans_lt (by decide)

section Asking

variable (hlive : ∀ auth ∈ w.db.listSshAuths, cp.ext.isPast auth.expiresAt (cp.nowAt w) = false)
  (hfew : w.db.sshAuths.length ≤ defaultSshAuthLimit)

include hlive hfew

/-- Nothing is dropped while nothing has expired and there are not too many approvals. -/
theorem prune_ssh_auths_run :
    (cp.pruneSshAuths defaultSshAuthLimit).run handler w = (.ok (), w.tick) := by
  have hlist : (store .listSshAuths).run handler w.tick = (.ok w.db.listSshAuths, w.tick) := rfl
  have hexpired : (w.db.listSshAuths.filter fun auth =>
      cp.ext.isPast auth.expiresAt (cp.nowAt w)) = [] := by
    refine List.filter_eq_nil_iff.mpr fun auth hauth => ?_
    rw [hlive auth hauth]
    exact Bool.false_ne_true
  have hkept : (w.db.listSshAuths.filter fun auth =>
      !cp.ext.isPast auth.expiresAt (cp.nowAt w)) = w.db.listSshAuths := by
    refine List.filter_eq_self.mpr fun auth hauth => ?_
    rw [hlive auth hauth]
    rfl
  have hnothing : (deleteSshAuths []).run handler w.tick = (.ok (), w.tick) := rfl
  have hlength : w.db.listSshAuths.length = w.db.sshAuths.length := by
    rw [Db.listSshAuths, List.length_insertionSort, List.length_map]
  rw [pruneSshAuths, run_bind_ok handler (now_run cp w), run_bind_ok handler hlist, hexpired,
    hkept, run_bind_ok handler hnothing]
  dsimp only
  rw [hlength, if_neg (not_lt.mpr hfew)]
  rfl

theorem ask_for_approval_run (machineKey : MachineKey) (binding : SshBinding) :
    ∃ auth, auth.authId = w.env.secrets (w.env.position + 1) ∧ auth.verdict = .pending ∧
      auth.expiresAt = cp.ext.formatRfc3339
        (w.env.clock (w.env.position + 3) + defaultSshAuthTtlSeconds) ∧
      (exec (cp.askForApproval machineKey binding) w).2 =
        (handler (.store (.saveSshAuth auth)) w.tick.tick.tick.tick).2 := by
  refine ⟨{ authId := w.env.secrets (w.env.position + 1)
            srcNodeId := binding.srcNodeId
            dstNodeId := binding.dstNodeId
            sshUser := binding.sshUser
            localUser := binding.localUser
            machineKey
            createdAt := cp.nowAt w.tick.tick
            expiresAt := cp.ext.formatRfc3339
              (w.env.clock (w.env.position + 3) + defaultSshAuthTtlSeconds)
            verdict := .pending }, rfl, rfl, rfl, ?_⟩
  have hsecret : (environment .generateSecret).run handler w.tick =
      (.ok (w.env.secrets (w.env.position + 1)), w.tick.tick) := rfl
  have hexpires : (cp.nowPlusSeconds defaultSshAuthTtlSeconds).run handler w.tick.tick.tick =
      (.ok (cp.ext.formatRfc3339
        (w.env.clock (w.env.position + 3) + defaultSshAuthTtlSeconds)),
          w.tick.tick.tick.tick) := rfl
  rw [askForApproval, exec, run_bind_ok handler (prune_ssh_auths_run hlive hfew),
    run_bind_ok handler hsecret, run_bind_ok handler (now_run cp w.tick.tick),
    run_bind_ok handler hexpires, run_bind_pure_snd, run_store_snd]

end Asking

theorem save_ssh_auth_adds {auth : SshAuth} (hnew : w.db.getSshAuth auth.authId = none) :
    (handler (.store (.saveSshAuth auth)) w).2.db.sshAuths.length = w.db.sshAuths.length + 1 := by
  have hids : (auth.authId :: w.db.sshAuthIds).length = w.db.sshAuths.length + 1 := by
    rw [List.length_cons, Db.sshAuthIds, List.length_map]
  refine Nat.le_antisymm ?_ ?_
  · exact (save_ssh_auth_within w.db.stored_within_self auth).length_le.trans hids.le
  · have hnodup : (auth.authId :: w.db.sshAuthIds).Nodup := by
      refine List.nodup_cons.mpr ⟨fun hmem => ?_, w.db.valid.sshAuthIds⟩
      obtain ⟨stored, hstored⟩ := Db.mem_ssh_auth_ids.mp hmem
      cases hnew.symm.trans hstored
    have hsubset : auth.authId :: w.db.sshAuthIds ⊆
        (handler (.store (.saveSshAuth auth)) w).2.db.sshAuthIds := by
      intro authId hmem
      rw [Db.mem_ssh_auth_ids, Call.get_ssh_auth, Call.sshAuthAfter]
      split_ifs with hid
      · exact ⟨auth, rfl⟩
      · exact Db.mem_ssh_auth_ids.mp ((List.mem_cons.mp hmem).resolve_left fun h => hid h.symm)
    have hle := (List.subperm_of_subset hnodup hsubset).length_le
    rwa [hids, Db.sshAuthIds, List.length_map] at hle

/-- A number of connections wait for an administrator. -/
structure Crowded (n : Nat) (w : World) : Prop where
  inputs : w.policyInputs = crowdStart.policyInputs
  since : Since crowdStart crowdStart.env.position w
  count : w.db.sshAuths.length = n
  waiting : ∀ authId auth, w.db.getSshAuth authId = some auth → auth.verdict = .pending ∧
    auth.expiresAt = "900" ∧ ∃ i < w.env.position, authId = crowdEnv.secrets i

theorem crowd_start_since : Since (checkServer.withStore Db.empty crowdEnv) 0 crowdStart :=
  since_run_ops _ _

theorem crowd_start_facts :
    crowdStart.db.sshAuths = [] ∧
    (crowdStart.db.getNodeById 1).map Node.machineKey = some ⟨1⟩ ∧
    (crowdStart.db.getNodeById 2).isSome = true ∧
    (firstMatchingSshRule (compileSshPolicy checkServer.config.policy crowdStart.compileNodes)
      2 1 "root").map CompiledSshRule.action = some (.check (12 * 60 * 60)) := by
  decide +kernel

namespace Crowded

variable {n : Nat} (h : Crowded n w)

include h

theorem clock (i : Nat) : w.env.clock i = 0 := by
  rw [h.since.clock, crowd_start_since.clock]
  rfl

theorem secrets : w.env.secrets = crowdEnv.secrets := by
  rw [h.since.secrets, crowd_start_since.secrets]
  rfl

theorem not_past {auth : SshAuth} (hauth : auth ∈ w.db.listSshAuths) (i : Nat) :
    checkServer.ext.isPast auth.expiresAt (checkServer.ext.formatRfc3339 (w.env.clock i)) =
      false := by
  rw [(h.waiting _ auth (Db.mem_list_ssh_auths.mp hauth)).2.1, h.clock]
  decide +kernel

theorem unexpired (i : Nat) : (unexpiredAt checkServer w i).length = n := by
  have hall : unexpiredAt checkServer w i = w.db.listSshAuths := by
    refine List.filter_eq_self.mpr fun auth hauth => ?_
    rw [h.not_past hauth i]
    rfl
  rw [hall, Db.listSshAuths, List.length_insertionSort, List.length_map, h.count]

theorem ask (hn : n ≤ defaultSshAuthLimit) : Crowded (n + 1) (askForShell.exec checkServer w) := by
  obtain ⟨hnodes, -⟩ := Prod.mk.inj h.inputs
  obtain ⟨-, hmachine, hsrc, hmatch⟩ := crowd_start_facts
  have hnode (id : Nat) : w.db.getNodeById id = crowdStart.db.getNodeById id := by
    simp only [Db.getNodeById, hnodes]
  rw [← hnode] at hmachine hsrc
  rw [← compile_nodes_congr h.inputs] at hmatch
  obtain ⟨dst, hdst, hdstMachine⟩ := Option.map_eq_some_iff.mp hmachine
  obtain ⟨src, hsrc⟩ := Option.isSome_iff_exists.mp hsrc
  obtain ⟨rule, hrule, haction⟩ := Option.map_eq_some_iff.mp hmatch
  have hold : ¬AcceptedWithin checkServer secondToFirst (12 * 60 * 60) w := by
    rintro ⟨found, last, hlatest, -⟩
    obtain ⟨hmem, hwhen⟩ := latest_acceptance_mem hlatest
    obtain ⟨-, lastAuthAt, hverdict, -⟩ := SshAuth.accepted_at_eq_some.mp hwhen
    have hpending := (h.waiting _ found (Db.mem_list_ssh_auths.mp hmem)).1
    cases hpending.symm.trans hverdict
  have hasks := handle_ssh_action_asks secondToFirst hdst hsrc hrule haction hold
  rw [hdstMachine] at hasks
  have hlive : ∀ auth ∈ w.tick.db.listSshAuths,
      checkServer.ext.isPast auth.expiresAt (checkServer.nowAt w.tick) = false :=
    fun _ hauth => h.not_past hauth _
  obtain ⟨auth, hid, hpending, hexpires, hsaved⟩ :=
    ask_for_approval_run hlive (h.count.trans_le hn) ⟨1⟩ secondToFirst
  have hid : auth.authId = crowdEnv.secrets (w.env.position + 2) := by
    rw [hid, ← h.secrets]
    rfl
  have hexec : askForShell.exec checkServer w =
      (handler (.store (.saveSshAuth auth)) w.tick.tick.tick.tick.tick).2 := by
    rw [← hsaved, ← hasks]
    exact run_bind_pure_snd handler (checkServer.handleSshAction ⟨1⟩ secondToFirst none) _ w
  have hexpires : auth.expiresAt = "900" := by
    rw [hexpires]
    show checkServer.ext.formatRfc3339 (w.env.clock _ + _) = _
    rw [h.clock]
    decide +kernel
  generalize hlast : w.tick.tick.tick.tick.tick = last at hexec
  have hdb : last.db = w.db := by
    rw [← hlast]
    rfl
  have hposition : last.env.position = w.env.position + 5 := by
    rw [← hlast]
    rfl
  have hnew : last.db.getSshAuth auth.authId = none := by
    refine Option.eq_none_iff_forall_ne_some.mpr fun stored hstored => ?_
    obtain ⟨-, -, i, hi, hsame⟩ := h.waiting _ stored (hdb ▸ hstored)
    have hlength := congrArg String.length (hid.symm.trans hsame)
    simp only [crowdEnv, String.length_ofList, List.length_replicate] at hlength
    omega
  refine ⟨?_, h.since.step askForShell, ?_, ?_⟩
  · have hsave : Call.OnSsh (.store (.saveSshAuth auth)) := trivial
    rw [hexec, hsave.policy_inputs, ← h.inputs, World.policyInputs, hdb]
    rfl
  · rw [hexec, save_ssh_auth_adds hnew, hdb, h.count]
  · intro authId stored hstored
    rw [hexec, Call.get_ssh_auth, Call.sshAuthAfter, hdb] at hstored
    have hlater : (askForShell.exec checkServer w).env.position = w.env.position + 5 := by
      rw [hexec, ← hposition]
      rfl
    split_ifs at hstored with hsame
    · cases hstored
      exact ⟨hpending, hexpires, w.env.position + 2, by omega, hsame.symm.trans hid⟩
    · obtain ⟨hverdict, hexpiry, i, hi, hdrawn⟩ := h.waiting authId stored hstored
      exact ⟨hverdict, hexpiry, i, by omega, hdrawn⟩

end Crowded

theorem crowded_start : Crowded 0 crowdStart where
  inputs := rfl
  since := .refl _
  count := congrArg List.length crowd_start_facts.1
  waiting := by
    intro authId auth hauth
    obtain ⟨-, row, hrow, -⟩ := Db.get_ssh_auth_eq_some.mp hauth
    rw [crowd_start_facts.1] at hrow
    cases hrow

theorem crowded_run {n : Nat} (hn : n ≤ defaultSshAuthLimit + 1) :
    ∃ w, Runs checkServer (fun _ op => op = askForShell) (fun _ => True) crowdStart w ∧
      Crowded n w := by
  induction n with
  | zero => exact ⟨crowdStart, .refl trivial, crowded_start⟩
  | succ n ih =>
    obtain ⟨w, hrun, hcrowded⟩ := ih (Nat.le_of_succ_le hn)
    exact ⟨_, .step hrun rfl trivial, hcrowded.ask (Nat.le_of_succ_le_succ hn)⟩

/-- With connections that keep asking, there is one approval more than the limit, and none has
expired. -/
theorem ssh_auths_over_limit :
    ∃ w, Runs checkServer (fun _ op => op = askForShell) (fun _ => True) crowdStart w ∧
      crowdStart.db.sshAuths = [] ∧
      ∀ i, (unexpiredAt checkServer w i).length = defaultSshAuthLimit + 1 := by
  obtain ⟨w, hrun, hcrowded⟩ := crowded_run (Nat.le_refl _)
  exact ⟨w, hrun, crowd_start_facts.1, hcrowded.unexpired⟩

end Crabscale.Control
