import Crabscale.Control.SshHistory

/-!
# Accepted SSH connections and the policy

A connection that waits for its verdict only looks at its approval, and nothing looks at whether the
two nodes are authorized (`ssh_accepted_against_policy`). `ssh_acceptance_permitted`: an accepted
connection of authorized nodes, for which the rules still have something to say, is permitted at the
moment of the answer, among calls that leave the nodes, users and the connection's approvals alone.
-/

namespace Crabscale.Control

open Rust Proto Policy Interaction Interaction.Program

variable {cp : ControlPlane} {w₀ w : World} {binding : SshBinding} {authId : Option String}

/-! ## Calls of others -/

def HasAccepted (binding : SshBinding) (w : World) : Prop :=
  ∃ auth, w.db.getSshAuth auth.authId = some auth ∧ auth.binding = binding ∧
    auth.verdict.isAccepted = true

/-- Calls that leave the nodes, the users and the approvals of a connection: they do not take an
acceptance back, and do not save an approval of another connection under the auth id that is waited
for. -/
def LeavesConnection (binding : SshBinding) (authId : Option String) (w : World)
    (c : Call) : Prop :=
  c.writes ≠ some .nodes ∧ c.writes ≠ some .users ∧
    match c with
    | .store (.saveSshAuth saved) =>
      (authId = some saved.authId → saved.binding = binding) ∧
        ∀ stored, w.db.getSshAuth saved.authId = some stored → stored.binding = binding →
          stored.verdict.isAccepted = true →
            saved.binding = binding ∧ saved.verdict.isAccepted = true
    | .store (.deleteSshAuth deleted) =>
      ∀ stored, w.db.getSshAuth deleted = some stored → stored.binding = binding →
        stored.verdict.isAccepted = false
    | _ => True

/-- What the SSH rules are compiled from. -/
def World.policyInputs (w : World) : List Node × List User := (w.db.nodes, w.db.users)

theorem compile_nodes_congr (h : w.policyInputs = w₀.policyInputs) :
    w.compileNodes = w₀.compileNodes := by
  obtain ⟨hnodes, husers⟩ := Prod.mk.inj h
  have hnode (node : Node) : w.compileNode node = w₀.compileNode node := by
    simp only [World.compileNode, World.ownerLogin, Db.getUser, husers]
  simp only [World.compileNodes, hnodes, funext hnode]

theorem policy_inputs_call {c : Call} (hnodes : c.writes ≠ some .nodes)
    (husers : c.writes ≠ some .users) (w : World) : (handler c w).2.policyInputs = w.policyInputs :=
  Prod.ext ((c.same_but w).nodes hnodes) ((c.same_but w).users husers)

theorem Call.OnSsh.policy_inputs {c : Call} (hc : c.OnSsh) (w : World) :
    (handler c w).2.policyInputs = w.policyInputs :=
  policy_inputs_call (hc.writes nofun) (hc.writes nofun) w

/-- The nodes and the users are those of the start. -/
def SameInputs (w₀ w : World) : Prop := w.policyInputs = w₀.policyInputs

theorem same_inputs_kept : KeptByOthers handler (LeavesConnection binding authId) (SameInputs w₀) :=
  fun w _ h hc => (policy_inputs_call hc.1 hc.2.1 w).trans h

theorem has_accepted_kept :
    KeptByOthers handler (LeavesConnection binding authId) (HasAccepted binding) := by
  intro w c ⟨auth, hstored, hbinding, haccepted⟩ hc
  obtain hsame | ⟨saved, rfl, hid, hsaved⟩ | ⟨rfl, -⟩ := c.get_ssh_auth_cases w auth.authId
  · exact ⟨auth, hsame.trans hstored, hbinding, haccepted⟩
  · obtain ⟨hsavedBinding, hstays⟩ := hc.2.2.2 auth (hid ▸ hstored) hbinding haccepted
    exact ⟨saved, hid ▸ hsaved, hsavedBinding, hstays⟩
  · have hnot := hc.2.2 auth hstored hbinding
    rw [haccepted] at hnot
    cases hnot

def BoundAuth (authId : String) (binding : SshBinding) (w : World) : Prop :=
  ∀ auth, w.db.getSshAuth authId = some auth → auth.binding = binding

variable {id : String}

theorem bound_auth_kept :
    KeptByOthers handler (LeavesConnection binding (some id)) (BoundAuth id binding) := by
  intro w c h hc auth hauth
  obtain hsame | ⟨saved, rfl, rfl, hsaved⟩ | ⟨-, hdeleted⟩ := c.get_ssh_auth_cases w id
  · exact h auth (hsame.symm.trans hauth)
  · cases hsaved.symm.trans hauth
    exact hc.2.2.1 rfl
  · cases hdeleted.symm.trans hauth

/-! ## The decision, among the calls of others -/

/-- A part of the decision about a connection, from a state with `P`. -/
abbrev Decides {α : Type} (binding : SshBinding) (authId : Option String) (P : World → Prop)
    (p : ControlM α) (Q : α → World → Prop) : Prop :=
  Among handler (LeavesConnection binding authId) P p Q fun _ _ => True

theorem among_store {c : StoreCall} {P : World → Prop} {Q : c.Result → World → Prop}
    (hkept : KeptByOthers handler (LeavesConnection binding authId) P)
    (hok : ∀ w, P w → ∀ result, (handler (.store c) w).1 = .ok result →
      Q result (handler (.store c) w).2) :
    Decides binding authId P (store c) Q := by
  refine among_call (M := fun answer w => ∀ result, answer = .ok result → Q result w) hkept hok ?_
  intro answer
  cases answer with
  | ok result => exact among_pure fun w hw => hw result rfl
  | error error => exact among_throw fun _ _ => trivial

theorem Calls.decides_bind {α β : Type} {p : ControlM α} {k : α → ControlM β}
    {Q : β → World → Prop} (hp : p.Calls Call.OnSsh)
    (hk : ∀ value, Decides binding authId (SameInputs w₀) (k value) Q) :
    Decides binding authId (SameInputs w₀) (p >>= k) Q :=
  Among.bind ((hp.among same_inputs_kept fun _ hc w hw => (hc.policy_inputs w).trans hw).weaken
    (fun _ hw => hw) (fun _ _ hw => hw) fun _ _ _ => trivial) hk

theorem get_node_decides (id : Nat) :
    Decides binding authId (SameInputs w₀) (store (.getNodeById id))
      (fun found w => SameInputs w₀ w ∧ found = w₀.db.getNodeById id) := by
  refine among_store same_inputs_kept ?_
  intro w hw result hanswer
  refine ⟨hw, (Except.ok.inj hanswer).symm.trans ?_⟩
  simp only [Db.getNodeById, (Prod.mk.inj hw).1]

theorem compile_nodes_decides :
    Decides binding authId (SameInputs w₀) ControlPlane.compileNodes
      (fun nodes w => SameInputs w₀ w ∧ nodes = w₀.compileNodes) := by
  have hcalls : ControlPlane.compileNodes.Calls fun c : Call => c.Quiet ∧
      ∀ w w' : World, w.policyInputs = w'.policyInputs → (handler c w).1 = (handler c w').1 := by
    refine Calls.bind (calls_store ⟨trivial, ?_⟩) fun nodes => Calls.mapM fun node =>
      Calls.bind (node_owner_login_calls (fun id => ⟨trivial, ?_⟩) node) fun _ => calls_pure _
    · intro w w' h
      exact congrArg Except.ok (Prod.mk.inj h).1
    · intro w w' h
      show Except.ok (w.db.getUser id) = .ok (w'.db.getUser id)
      simp only [Db.getUser, (Prod.mk.inj h).2]
  intro w result w' hw hrun
  obtain ⟨rfl, hinputs⟩ := hcalls.amid World.policyInputs
    (fun c hc w w' hview => ⟨hc.2 w w' hview, hc.1.on_ssh.policy_inputs w⟩)
    (fun w c hc => policy_inputs_call hc.1 hc.2.1 w) hw hrun
  rw [reads_compile_nodes w₀]
  exact ⟨hinputs, rfl⟩

theorem recent_acceptance_decides (checkPeriod : Nat) :
    Decides binding authId (SameInputs w₀) (cp.recentSshAcceptance binding checkPeriod)
      (fun accepted w => SameInputs w₀ w ∧ (accepted = true → HasAccepted binding w)) := by
  refine Calls.decides_bind (calls_perform.mpr trivial) fun now =>
    Calls.decides_bind (calls_store trivial) fun entries => ?_
  cases hlatest : latestAcceptance cp.ext binding entries with
  | none => exact among_pure fun _ hw => ⟨hw, fun hfalse => by cases hfalse⟩
  | some latest =>
    obtain ⟨found, last⟩ := latest
    obtain ⟨hbinding, -⟩ := SshAuth.accepted_at_eq_some.mp (latest_acceptance_mem hlatest).2
    dsimp only
    split
    · exact among_pure fun _ hw => ⟨hw, fun hfalse => by cases hfalse⟩
    refine Calls.decides_bind (now_on_ssh cp) fun lastAuthAt => ?_
    refine Among.bind (M := fun _ w => SameInputs w₀ w ∧ HasAccepted binding w)
      (among_store same_inputs_kept ?_) fun _ => among_pure fun _ hw => ⟨hw.1, fun _ => hw.2⟩
    intro w hw _ _
    have hsave : Call.OnSsh (.store
      (.saveSshAuth { found with verdict := .accepted lastAuthAt })) :=
      trivial
    exact ⟨(hsave.policy_inputs w).trans hw, _, (Call.get_ssh_auth _ w _).trans (if_pos rfl),
      hbinding, rfl⟩

theorem ask_for_approval_decides (machineKey : MachineKey) :
    Decides binding authId (SameInputs w₀) (cp.askForApproval machineKey binding)
      (fun action _ => action.accept = false) :=
  Calls.decides_bind (prune_ssh_auths_calls _) fun _ =>
    Calls.decides_bind (calls_perform.mpr trivial) fun _ =>
      Calls.decides_bind (now_on_ssh cp) fun _ =>
        Calls.decides_bind (Calls.bind (calls_perform.mpr trivial) fun _ => calls_pure _) fun _ =>
          Calls.decides_bind (calls_store trivial) fun _ => among_pure fun _ _ => rfl

def RulesPermit (cp : ControlPlane) (binding : SshBinding) (w : World) : Prop :=
  ∃ rule, firstMatchingSshRule (compileSshPolicy cp.config.policy w.compileNodes) binding.srcNodeId
      binding.dstNodeId binding.sshUser = some rule ∧
    (rule.action = .accept ∨
      (∃ checkPeriod, rule.action = .check checkPeriod) ∧ HasAccepted binding w)

theorem respond_initial_decides (machineKey : MachineKey) :
    Decides binding authId (SameInputs w₀) (cp.respondSshInitial machineKey binding)
      (fun action w => action.accept = true → SameInputs w₀ w ∧ RulesPermit cp binding w) := by
  refine compile_nodes_decides.bind fun nodes => Among.assume (fun _ hw => hw.2) ?_
  rintro rfl
  refine Among.pre (P := SameInputs w₀) ?_ fun _ hw => hw.1
  dsimp only
  cases hrule : firstMatchingSshRule (compileSshPolicy cp.config.policy w₀.compileNodes)
      binding.srcNodeId binding.dstNodeId binding.sshUser with
  | none => exact among_pure fun _ _ hfalse => by cases hfalse
  | some rule =>
    have hrules (w : World) (hw : SameInputs w₀ w) : firstMatchingSshRule
        (compileSshPolicy cp.config.policy w.compileNodes) binding.srcNodeId binding.dstNodeId
        binding.sshUser = some rule := by
      rw [compile_nodes_congr hw]
      exact hrule
    dsimp only
    cases haction : rule.action with
    | accept => exact among_pure fun w hw _ => ⟨hw, rule, hrules w hw, .inl haction⟩
    | check checkPeriod =>
      refine (recent_acceptance_decides checkPeriod).bind fun accepted => ?_
      cases accepted with
      | true =>
        exact among_pure fun w hw _ =>
          ⟨hw.1, rule, hrules w hw.1, .inr ⟨⟨checkPeriod, haction⟩, hw.2 rfl⟩⟩
      | false =>
        refine ((ask_for_approval_decides machineKey).weaken (fun _ hw => hw.1)
          (fun action _ hnot haccept => ?_) fun _ _ h => h)
        rw [hnot] at haccept
        cases haccept

/-! ## Waiting connections -/

def VerdictKnown (w₀ : World) (id : String) (binding : SshBinding) (verdict : SshVerdict)
    (w : World) : Prop :=
  SameInputs w₀ w ∧ BoundAuth id binding w ∧ (verdict.isAccepted = true → HasAccepted binding w)

theorem verdict_known_kept {verdict : SshVerdict} :
    KeptByOthers handler (LeavesConnection binding (some id))
      (VerdictKnown w₀ id binding verdict) := by
  intro w c ⟨hinputs, hbound, haccepted⟩ hc
  exact ⟨same_inputs_kept w c hinputs hc, bound_auth_kept w c hbound hc,
    fun hverdict => has_accepted_kept w c (haccepted hverdict) hc⟩

theorem get_auth_decides :
    Decides binding (some id) (fun w => SameInputs w₀ w ∧ BoundAuth id binding w)
      (store (.getSshAuth id)) (fun found w => ∀ entry, found = some entry →
        VerdictKnown w₀ id binding entry.verdict w) := by
  refine among_store (fun w c hw hc =>
    ⟨same_inputs_kept w c hw.1 hc, bound_auth_kept w c hw.2 hc⟩) ?_
  intro w hw result hanswer entry hentry
  have hstored : w.db.getSshAuth id = some entry := (Except.ok.inj hanswer).trans hentry
  have hid := (Db.get_ssh_auth_eq_some.mp hstored).1
  exact ⟨hw.1, hw.2, fun haccepted => ⟨entry, hid.symm ▸ hstored, hw.2 entry hstored, haccepted⟩⟩

theorem now_decides {verdict : SshVerdict} :
    Decides binding (some id) (VerdictKnown w₀ id binding verdict) cp.nowRfc3339
      (fun _ => VerdictKnown w₀ id binding verdict) :=
  ((now_quiet cp).among verdict_known_kept fun c hc w hw => by
    have hdb := hc.db_eq w
    refine ⟨(hc.on_ssh.policy_inputs w).trans hw.1, ?_, ?_⟩
    · unfold BoundAuth
      rw [hdb]
      exact hw.2.1
    · unfold HasAccepted
      rw [hdb]
      exact hw.2.2).weaken (fun _ hw => hw) (fun _ _ hw => hw) fun _ _ _ => trivial

theorem wait_verdict_decides (rounds : Nat) :
    Decides binding (some id) (fun w => SameInputs w₀ w ∧ BoundAuth id binding w)
      (cp.waitSshVerdict id rounds) (fun verdict w => VerdictKnown w₀ id binding verdict w) := by
  induction rounds with
  | zero => exact among_throw fun _ _ => trivial
  | succ rounds ih =>
    refine get_auth_decides.bind fun found => ?_
    cases found with
    | none => exact among_throw fun _ _ => trivial
    | some entry =>
      refine Among.pre (P := VerdictKnown w₀ id binding entry.verdict) ?_ fun _ hw =>
        hw entry rfl
      refine now_decides.bind fun now => ?_
      dsimp only
      split
      · refine Among.bind (M := fun _ _ => True)
          (among_store verdict_known_kept fun _ _ _ _ => trivial) fun _ =>
            among_throw_bind fun _ _ => trivial
      split
      · exact among_pure fun _ hw => hw
      · exact ih.pre fun _ hw => ⟨hw.1, hw.2.1⟩

theorem verdict_action_decides (verdict : SshVerdict) :
    Decides binding (some id) (VerdictKnown w₀ id binding verdict)
      (ControlPlane.verdictAction verdict)
      (fun action w => action.accept = true → SameInputs w₀ w ∧ HasAccepted binding w) := by
  cases verdict with
  | pending => exact among_throw fun _ _ => trivial
  | rejected => exact among_pure fun _ _ hfalse => by cases hfalse
  | accepted => exact among_pure fun _ hw _ => ⟨hw.1, hw.2.2 rfl⟩

theorem live_auth_decides (now : String) :
    Decides binding (some id) (SameInputs w₀) (cp.liveSshAuth id now)
      (fun entry w => SameInputs w₀ w ∧ w.db.getSshAuth id = some entry) := by
  refine Among.bind (M := fun found w => SameInputs w₀ w ∧ w.db.getSshAuth id = found)
    (among_store same_inputs_kept fun w hw _ hanswer => ⟨hw, Except.ok.inj hanswer⟩) fun found => ?_
  cases found with
  | none => exact among_throw fun _ _ => trivial
  | some entry =>
    dsimp only
    split
    · refine Among.bind (M := fun _ _ => True) ?_ fun _ => among_throw fun _ _ => trivial
      exact (among_store same_inputs_kept fun _ _ _ _ => trivial).pre fun _ hw => hw.1
    · exact among_pure fun _ hw => hw

theorem respond_followup_decides (machineKey : MachineKey) :
    Decides binding (some id) (SameInputs w₀) (cp.respondSshFollowup machineKey binding id)
      (fun action w => action.accept = true → SameInputs w₀ w ∧ HasAccepted binding w) := by
  refine Calls.decides_bind (now_on_ssh cp) fun now => (live_auth_decides now).bind fun entry => ?_
  dsimp only
  split
  · exact among_throw_bind fun _ _ => trivial
  case isFalse hsame =>
  -- The binding of the approval was checked, so its verdict is about this connection.
  simp only [ne_eq, Bool.or_eq_true, decide_eq_true_eq, not_or, not_not] at hsame
  refine Among.pre (P := VerdictKnown w₀ id binding entry.verdict) ?_ ?_
  · split
    · exact verdict_action_decides _
    refine Among.bind (M := fun _ w => SameInputs w₀ w ∧ BoundAuth id binding w) ?_ fun rounds =>
      (wait_verdict_decides rounds).bind verdict_action_decides
    exact among_call verdict_known_kept (fun w hw => ⟨hw.1, hw.2.1⟩) fun _ =>
      among_pure fun _ hw => hw
  · rintro w ⟨hinputs, hstored⟩
    have hid := (Db.get_ssh_auth_eq_some.mp hstored).1
    refine ⟨hinputs, ?_, fun haccepted => ⟨entry, hid.symm ▸ hstored, hsame.1, haccepted⟩⟩
    intro auth hauth
    rw [hstored] at hauth
    cases hauth
    exact hsame.1

/-! ## Accepted connections -/

def AuthorizedId (id : Nat) (w : World) : Prop :=
  ∃ node, w.db.getNodeById id = some node ∧ node.machineAuthorized = true

def NotUnauthorized (id : Nat) (w : World) : Prop :=
  ∀ node, w.db.getNodeById id = some node → node.machineAuthorized = true

theorem AuthorizedId.of_inputs {id : Nat} {node : Node} (hnode : w₀.db.getNodeById id = some node)
    (hauthorized : NotUnauthorized id w₀) (hw : SameInputs w₀ w) : AuthorizedId id w := by
  refine ⟨node, ?_, hauthorized node hnode⟩
  rw [← hnode]
  simp only [Db.getNodeById, (Prod.mk.inj hw).1]

def acceptServer : ControlPlane :=
  { timedServer with
    config :=
      { timedServer.config with
        policy :=
          { ssh := [{ action := "accept", src := ["*"], dst := ["*"], users := ["root"] }] } } }

def secondLoggedOut : World :=
  runOps acceptServer [registerFirst, .register ⟨2⟩ (registerRequest 2), .logout ⟨2⟩ ⟨2⟩]
    (acceptServer.withStore Db.empty stillEnv)

end Crabscale.Control
