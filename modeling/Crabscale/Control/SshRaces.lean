import Crabscale.Control.SshHistory

/-!
# Rejections of SSH approvals under concurrent requests

A new connection lists the approvals and later writes the latest acceptance back, over a rejection
that falls in between (`rejection_overwritten`). `rejection_durable`: a rejection that returns while
no other request is about to write an acceptance of the same approval stays, under any interleaving
in which no new approval of it starts.
-/

namespace Crabscale.Control

open Rust Proto Policy Interaction Interaction.Program

/-! ## Requests and how far they have got -/

inductive SshRequest where
  | approve (authId : String)
  | reject (authId : String)
  | connect (machineKey : MachineKey) (binding : SshBinding)
  deriving DecidableEq

def SshRequest.op : SshRequest → Op
  | approve authId => .approveSsh authId
  | reject authId => .rejectSsh authId
  | connect machineKey binding => .handleSshAction machineKey binding none

/-- How far a request has got with an approval. -/
inductive SshPhase where
  /-- It has not started. -/
  | fresh
  /-- It has not listed the approvals yet. -/
  | reading
  /-- It may write an acceptance of the approval. -/
  | holding
  /-- It will not write an acceptance of the approval. -/
  | settled
  /-- It has written an approval. -/
  | saved
  deriving DecidableEq

def Call.saves : Call → Bool
  | .store (.saveSshAuth _) => true
  | _ => false

def SshRequest.started (authId : String) : SshRequest → SshPhase
  | approve id => if id = authId then .holding else .settled
  | reject _ => .settled
  | connect _ _ => .reading

def SshRequest.listed (ext : Externals) (authId : String) (entries : List SshAuth) :
    SshRequest → SshPhase
  | connect _ binding =>
    if (latestAcceptance ext binding entries).any fun latest => latest.1.authId == authId then
      .holding
    else .settled
  | approve _ | reject _ => .settled

def SshRequest.afterRead (ext : Externals) (authId : String) (request : SshRequest) :
    (c : Call) → signature.Answer c → SshPhase
  | .store .listSshAuths, .ok entries => request.listed ext authId entries
  | _, _ => .reading

def SshRequest.MaySave (request : SshRequest) (auth : SshAuth) : Prop :=
  ∀ id, request = .reject id → auth.authId = id ∧ auth.verdict.isAccepted = false

def AnswersAuth (asked : String) : Except StoreError (Option SshAuth) → Prop
  | .ok (some auth) => auth.authId = asked
  | .ok none | .error _ => True

def sshProtocol (ext : Externals) (authId : String) (request : SshRequest) :
    Protocol signature SshPhase where
  allowed
    | .fresh, c | .reading, c => c.saves = false
    | .holding, .store (.saveSshAuth auth) => request.MaySave auth
    | .settled, .store (.saveSshAuth auth) =>
      request.MaySave auth ∧ (auth.authId = authId → auth.verdict.isAccepted = false)
    | .holding, _ | .settled, _ => True
    | .saved, _ => False
  expects _
    | .store (.getSshAuth asked), answer => AnswersAuth asked answer
    | _, _ => True
  next
    | .fresh, _, _ => request.started authId
    | .reading, c, answer => request.afterRead ext authId c answer
    | .holding, c, _ => if c.saves then .saved else .holding
    | .settled, c, _ => if c.saves then .saved else .settled
    | .saved, _, _ => .saved

/-! ## The requests keep to the protocol -/

section Obeys

variable {cp : ControlPlane} {authId : String} {request : SshRequest} {φ : SshPhase}

/-- The program keeps to the request's protocol and ends with an error or as `Q` says. -/
abbrev SshObeys {α : Type} (cp : ControlPlane) (authId : String) (request : SshRequest)
    (φ : SshPhase) (p : ControlM α) (Q : α → SshPhase → Prop := fun _ _ => True) : Prop :=
  p.Obeys (sshProtocol cp.ext authId request) φ Q fun _ _ => True

def SshPhase.Decided (φ : SshPhase) : Prop := φ = .holding ∨ φ = .settled

theorem SshPhase.Decided.ne_saved (hφ : φ.Decided) : φ ≠ .saved := by
  rcases hφ with rfl | rfl <;> simp

theorem listed_decided (ext : Externals) (entries : List SshAuth) :
    (request.listed ext authId entries).Decided := by
  cases request with
  | approve | reject => exact .inr rfl
  | connect machineKey binding =>
    dsimp only [SshRequest.listed]
    split
    · exact .inl rfl
    · exact .inr rfl

theorem SshPhase.Decided.keeps (hφ : φ.Decided) {c : Call} (hc : c.saves = false) :
    (sshProtocol cp.ext authId request).Keeps φ c := by
  rcases hφ with rfl | rfl
  all_goals
    refine ⟨?_, fun _ => if_neg (by simp [hc])⟩
    cases c with
    | store c => cases c <;> trivial
    | memory c => trivial
    | env c => trivial

theorem save_obeys (hφ : φ.Decided) {auth : SshAuth} (hmay : request.MaySave auth)
    (hsettled : φ = .settled → auth.authId = authId → auth.verdict.isAccepted = false) :
    SshObeys cp authId request φ (store (.saveSshAuth auth)) fun _ φ' => φ' = .saved := by
  refine obeys_store ?_ (fun _ _ => ?_) fun _ _ => trivial
  · rcases hφ with rfl | rfl
    · exact hmay
    · exact ⟨hmay, hsettled rfl⟩
  · rcases hφ with rfl | rfl <;> rfl

theorem now_saves : cp.nowRfc3339.Calls fun c => Call.saves c = false :=
  Calls.bind (calls_perform.mpr rfl) fun _ => calls_pure _

theorem delete_ssh_auths_saves (entries : List SshAuth) :
    (ControlPlane.deleteSshAuths entries).Calls fun c => Call.saves c = false :=
  Calls.forM fun _ => calls_store rfl

theorem prune_ssh_auths_saves (limit : Nat) :
    (cp.pruneSshAuths limit).Calls fun c => Call.saves c = false := by
  refine Calls.bind now_saves fun now => Calls.bind (calls_store rfl) fun entries =>
    Calls.bind (delete_ssh_auths_saves _) fun _ => ?_
  dsimp only
  split
  · exact delete_ssh_auths_saves _
  · exact calls_pure _

theorem decided_bind {α β : Type} {p : ControlM α} {k : α → ControlM β} {Q : β → SshPhase → Prop}
    (hφ : φ.Decided) (hp : p.Calls fun c => Call.saves c = false)
    (hk : ∀ value, SshObeys cp authId request φ (k value) Q) :
    SshObeys cp authId request φ (p >>= k) Q :=
  Calls.obeys_bind (hp.mono fun _ hc => hφ.keeps hc) (fun _ => trivial) hk

theorem live_ssh_auth_obeys (hφ : φ.Decided) (id now : String) :
    SshObeys cp authId request φ (cp.liveSshAuth id now)
      fun auth φ' => φ' = φ ∧ auth.authId = id := by
  have hkeeps : (sshProtocol cp.ext authId request).Keeps φ (.store (.getSshAuth id)) :=
    hφ.keeps rfl
  refine Obeys.bind (M := fun found φ' => φ' = φ ∧ ∀ auth, found = some auth → auth.authId = id)
    (obeys_store hkeeps.1 (fun found hfound => ⟨hkeeps.2 _, ?_⟩) fun _ _ => trivial) ?_
  · rintro auth rfl
    exact hfound
  rintro found _ ⟨rfl, hid⟩
  cases found with
  | none => trivial
  | some auth =>
    dsimp only
    split
    · exact decided_bind hφ (calls_store rfl) fun _ => trivial
    · exact ⟨rfl, hid auth rfl⟩

theorem settle_obeys {id : String} {verdict : String → SshVerdict}
    (hdecided : (request.started authId).Decided)
    (hmay : ∀ (auth : SshAuth) (now : String), auth.authId = id →
      request.MaySave { auth with verdict := verdict now } ∧
      (request.started authId = .settled → auth.authId = authId →
        (verdict now).isAccepted = false)) :
    SshObeys cp authId request .fresh
      (cp.nowRfc3339 >>= fun now => cp.liveSshAuth id now >>= fun entry =>
        store (.saveSshAuth { entry with verdict := verdict now })) fun _ φ' => φ' = .saved := by
  refine ⟨rfl, fun now _ => ?_⟩
  refine (live_ssh_auth_obeys hdecided id _).bind ?_
  rintro auth _ ⟨rfl, hid⟩
  exact save_obeys hdecided (hmay auth _ hid).1 (hmay auth _ hid).2

theorem approve_ssh_obeys (id : String) :
    SshObeys cp authId (.approve id) .fresh (cp.approveSsh id) := by
  have hdecided : ((SshRequest.approve id).started authId).Decided := by
    dsimp only [SshRequest.started]
    split
    · exact .inl rfl
    · exact .inr rfl
  refine (settle_obeys hdecided fun auth now hid => ⟨?_, ?_⟩).weaken (fun _ _ _ => trivial)
    fun _ _ h => h
  · rintro _ ⟨⟩
  · intro hstarted hsame
    rw [SshRequest.started, if_pos (hid.symm.trans hsame)] at hstarted
    cases hstarted

theorem reject_ssh_obeys (id : String) :
    SshObeys cp authId (.reject id) .fresh (cp.rejectSsh id) fun _ φ' => φ' = .saved := by
  refine settle_obeys (.inr rfl) fun auth now hid => ⟨?_, fun _ _ => rfl⟩
  rintro _ ⟨⟩
  exact ⟨hid, rfl⟩

variable {machineKey : MachineKey} {binding : SshBinding}

theorem may_save_connect (auth : SshAuth) :
    (SshRequest.connect machineKey binding).MaySave auth := by
  rintro _ ⟨⟩

theorem ask_for_approval_obeys (hφ : φ.Decided) :
    SshObeys cp authId (.connect machineKey binding) φ (cp.askForApproval machineKey binding) := by
  refine decided_bind hφ (prune_ssh_auths_saves _) fun _ =>
    decided_bind hφ (calls_perform.mpr rfl) fun _ => decided_bind hφ now_saves fun _ =>
      decided_bind hφ (Calls.bind (calls_perform.mpr rfl) fun _ => calls_pure _) fun _ => ?_
  exact (save_obeys hφ (may_save_connect _) fun _ _ => rfl).bind fun _ _ _ => trivial

def Call.Unlisted : Call → Prop
  | .store (.saveSshAuth _) | .store .listSshAuths => False
  | _ => True

/-- A part that neither saves nor lists approvals, in a request that has not listed them. -/
theorem reading_bind {α β : Type} {p : ControlM α} {k : α → ControlM β} {Q : β → SshPhase → Prop}
    (hp : p.Calls Call.Unlisted) (hk : ∀ value, SshObeys cp authId request .reading (k value) Q) :
    SshObeys cp authId request .reading (p >>= k) Q := by
  refine Calls.obeys_bind (hp.mono fun c hc => ?_) (fun _ => trivial) hk
  cases c with
  | store c => cases c <;> first | exact hc.elim | exact ⟨rfl, fun _ => rfl⟩
  | memory c => exact ⟨rfl, fun _ => rfl⟩
  | env c => exact ⟨rfl, fun _ => rfl⟩

theorem recent_ssh_acceptance_obeys (checkPeriod : Nat) :
    SshObeys cp authId (.connect machineKey binding) .reading
      (cp.recentSshAcceptance binding checkPeriod)
      fun accepted φ' => accepted = false → φ'.Decided := by
  refine reading_bind (calls_perform.mpr trivial) fun now => ?_
  refine Obeys.bind (M := fun entries φ' =>
    φ' = (SshRequest.connect machineKey binding).listed cp.ext authId entries)
    (obeys_store rfl (fun _ _ => rfl) fun _ _ => trivial) ?_
  rintro entries _ rfl
  have hdecided : ((SshRequest.connect machineKey binding).listed cp.ext authId entries).Decided :=
    listed_decided cp.ext entries
  cases hlatest : latestAcceptance cp.ext binding entries with
  | none => exact fun _ => hdecided
  | some latest =>
    dsimp only
    split
    · exact fun _ => hdecided
    refine decided_bind hdecided now_saves fun now => ?_
    refine (save_obeys hdecided (may_save_connect _) ?_).bind fun _ _ _ hfalse => by cases hfalse
    intro hsettled hid
    have hholding : (SshRequest.connect machineKey binding).listed cp.ext authId entries =
        .holding := by
      rw [SshRequest.listed, hlatest]
      exact if_pos (beq_iff_eq.mpr hid)
    rw [hsettled] at hholding
    cases hholding

theorem compile_nodes_unlisted : ControlPlane.compileNodes.Calls Call.Unlisted :=
  Calls.bind (calls_store trivial) fun _ => Calls.mapM fun node =>
    Calls.bind (node_owner_login_calls (fun _ => trivial) node) fun _ => calls_pure _

theorem respond_ssh_initial_obeys :
    SshObeys cp authId (.connect machineKey binding) .reading
      (cp.respondSshInitial machineKey binding) := by
  refine reading_bind compile_nodes_unlisted fun nodes => ?_
  dsimp only
  split
  · trivial
  split
  · trivial
  refine (recent_ssh_acceptance_obeys _).bind ?_
  intro accepted φ' hφ'
  cases accepted with
  | true => trivial
  | false => exact ask_for_approval_obeys (hφ' rfl)

theorem handle_ssh_action_obeys (machineKey : MachineKey) (binding : SshBinding) :
    SshObeys cp authId (.connect machineKey binding) .fresh
      (cp.handleSshAction machineKey binding none) := by
  refine Obeys.bind (M := fun _ φ' => φ' = .reading)
    (obeys_store rfl (fun _ _ => rfl) fun _ _ => trivial) ?_
  rintro dst _ rfl
  cases dst with
  | none => trivial
  | some dst =>
    dsimp only
    split
    · trivial
    refine reading_bind (calls_store trivial) fun src => ?_
    cases src with
    | none => trivial
    | some src => exact respond_ssh_initial_obeys

theorem SshRequest.obeys (request : SshRequest) :
    SshObeys cp authId request .fresh (request.op.program cp) := by
  cases request with
  | approve id => exact approve_ssh_obeys id
  | reject id => exact (reject_ssh_obeys id).weaken (fun _ _ _ => trivial) fun _ _ h => h
  | connect machineKey binding =>
    exact (handle_ssh_action_obeys machineKey binding).bind fun _ _ _ => trivial

end Obeys

/-! ## Any number of requests -/

section Pool

variable {ι : Type}

/-- Requests that run concurrently. -/
abbrev SshPool (ι : Type) : Type := Pool signature ControlError Unit SshPhase ι World

def sshPool (cp : ControlPlane) (requests : ι → SshRequest) (w : World) : SshPool ι where
  threads i := (requests i).op.program cp
  phases _ := .fresh
  state := w

def sshProtocols (cp : ControlPlane) (authId : String) (requests : ι → SshRequest) (i : ι) :
    Protocol signature SshPhase :=
  sshProtocol cp.ext authId (requests i)

/-- A request that still runs may write an acceptance of the approval: it approves the approval, or
found it to be the latest acceptance of its connection. -/
def holdsAcceptance (pool : SshPool ι) (i : ι) : Bool :=
  !pool.ended i && decide (pool.phases i = .holding)

def StartsNoApproval (authId : String) (requests : ι → SshRequest) (pool : SshPool ι) (i : ι)
    (_ : Call) : Prop :=
  requests i = .approve authId → pool.phases i ≠ .fresh

instance (authId : String) (requests : ι → SshRequest) (pool : SshPool ι) (i : ι) (c : Call) :
    Decidable (StartsNoApproval authId requests pool i c) :=
  inferInstanceAs (Decidable (_ → _))

def NotAccepted (authId : String) (w : World) : Prop :=
  ∀ auth, w.db.getSshAuth authId = some auth → auth.verdict.isAccepted = false

/-- The approval is not accepted, and no request may write an acceptance of it. -/
structure StaysRejected (authId : String) (pool : SshPool ι) : Prop where
  verdict : NotAccepted authId pool.state
  free : ∀ i, holdsAcceptance pool i = false

variable {cp : ControlPlane} {authId : String} {requests : ι → SshRequest}
  {pool : SshPool ι} {i : ι}
  {c : Call}

theorem ssh_protocol_expects (request : SshRequest) (φ : SshPhase) (c : Call) (w : World) :
    (sshProtocol cp.ext authId request).expects φ c (handler c w).1 := by
  cases c with
  | memory c => trivial
  | env c => trivial
  | store c =>
    cases c with
    | getSshAuth asked =>
      show AnswersAuth asked (.ok (w.db.getSshAuth asked))
      cases hfound : w.db.getSshAuth asked with
      | none => trivial
      | some auth => exact (Db.get_ssh_auth_eq_some.mp hfound).1
    | _ => trivial

theorem NotAccepted.call {w : World} (h : NotAccepted authId w)
    (hsave : ∀ auth, c = .store (.saveSshAuth auth) → auth.authId = authId →
      auth.verdict.isAccepted = false) : NotAccepted authId (handler c w).2 := by
  intro auth hauth
  obtain hsame | ⟨saved, rfl, hid, hsaved⟩ | ⟨-, hdeleted⟩ := c.get_ssh_auth_cases w authId
  · exact h auth (hsame.symm.trans hauth)
  · cases hsaved.symm.trans hauth
    exact hsave auth rfl hid
  · cases hdeleted.symm.trans hauth

theorem listed_settled {w : World} (h : NotAccepted authId w) (request : SshRequest) :
    request.listed cp.ext authId w.db.listSshAuths = .settled := by
  cases request with
  | approve | reject => rfl
  | connect machineKey binding =>
    refine if_neg ?_
    cases hlatest : latestAcceptance cp.ext binding w.db.listSshAuths with
    | none => simp
    | some latest =>
      obtain ⟨hmem, hwhen⟩ := latest_acceptance_mem hlatest
      obtain ⟨-, lastAuthAt, hverdict, -⟩ := SshAuth.accepted_at_eq_some.mp hwhen
      rw [Db.mem_list_ssh_auths] at hmem
      simp only [Option.any_some, beq_iff_eq]
      rintro rfl
      have hnot := h latest.1 hmem
      rw [hverdict] at hnot
      cases hnot

theorem next_not_holding {w : World} {request : SshRequest} {φ : SshPhase}
    (h : NotAccepted authId w)
    (hφ : φ ≠ .holding) (hstarts : request = .approve authId → φ ≠ .fresh) :
    (sshProtocol cp.ext authId request).next φ c (handler c w).1 ≠ .holding := by
  cases φ with
  | holding => exact absurd rfl hφ
  | saved => simp [sshProtocol]
  | settled =>
    show (if c.saves then SshPhase.saved else .settled) ≠ .holding
    split <;> simp
  | fresh =>
    show request.started authId ≠ .holding
    cases request with
    | reject | connect => simp [SshRequest.started]
    | approve id =>
      have hne : id ≠ authId := fun hid => hstarts (by rw [hid]) rfl
      simp [SshRequest.started, hne]
  | reading =>
    show request.afterRead cp.ext authId c _ ≠ .holding
    cases c with
    | memory c => simp [SshRequest.afterRead]
    | env c => simp [SshRequest.afterRead]
    | store c =>
      cases c with
      | listSshAuths =>
        show request.listed cp.ext authId w.db.listSshAuths ≠ .holding
        rw [listed_settled h]
        simp
      | _ => simp [SshRequest.afterRead]

variable [DecidableEq ι] {next : signature.Answer c → ControlM Unit}

theorem StaysRejected.step (h : StaysRejected authId pool) (hcall : pool.threads i = .call c next)
    (hallowed : (sshProtocols cp authId requests i).allowed (pool.phases i) c)
    (hstarts : StartsNoApproval authId requests pool i c) :
    StaysRejected authId (pool.advance handler (sshProtocols cp authId requests) i c next) := by
  have hphase : pool.phases i ≠ .holding := by
    have hfree := h.free i
    simpa [holdsAcceptance, Pool.ended_of_call hcall] using hfree
  constructor
  · refine h.verdict.call ?_
    rintro auth rfl hid
    cases hφ : pool.phases i with
    | holding => exact absurd hφ hphase
    | settled =>
      rw [hφ] at hallowed
      exact hallowed.2 hid
    | fresh | reading =>
      rw [hφ] at hallowed
      cases hallowed
    | saved =>
      rw [hφ] at hallowed
      exact hallowed.elim
  · intro j
    obtain rfl | hne := eq_or_ne j i
    · have hnext : (pool.advance handler (sshProtocols cp authId requests) j c next).phases j ≠
          .holding := by
        rw [Pool.phases_advance_self]
        exact next_not_holding h.verdict hphase hstarts
      simp [holdsAcceptance, hnext]
    · have hfree := h.free j
      unfold holdsAcceptance at hfree ⊢
      rw [Pool.ended_advance_of_ne hne, Pool.phases_advance_of_ne hne]
      exact hfree

theorem StaysRejected.run (h : StaysRejected authId pool)
    (hobeys : pool.Obeys (sshProtocols cp authId requests) fun _ _ => True) {schedule : List ι}
    (hmeets : pool.Meets handler (sshProtocols cp authId requests)
      (StartsNoApproval authId requests) schedule) :
    StaysRejected authId (pool.run handler (sshProtocols cp authId requests) schedule) := by
  refine (Pool.run_invariant (I := StaysRejected authId) ?_ hobeys h hmeets).2
  intro pool hobeys h i c next hcall hstarts
  exact ⟨ssh_protocol_expects _ _ c pool.state, h.step hcall (hobeys.allowed hcall) hstarts⟩

def RejectionsSave (cp : ControlPlane) (authId : String) (requests : ι → SshRequest)
    (pool : SshPool ι) : Prop :=
  ∀ i, requests i = .reject authId → (pool.threads i).Obeys (sshProtocols cp authId requests i)
    (pool.phases i) (fun _ φ => φ = .saved) fun _ _ => True

theorem RejectionsSave.advance (h : RejectionsSave cp authId requests pool)
    (hcall : pool.threads i = .call c next) :
    RejectionsSave cp authId requests
      (pool.advance handler (sshProtocols cp authId requests) i c next) := by
  intro j hj
  obtain rfl | hne := eq_or_ne j i
  · have hobeys := h j hj
    rw [hcall] at hobeys
    simp only [Pool.advance, Function.update_self]
    exact hobeys.2 _ (ssh_protocol_expects _ _ c pool.state)
  · simp only [Pool.advance, Function.update_of_ne hne]
    exact h j hj

theorem Call.eq_save_of_saves {c : Call} (h : c.saves = true) :
    ∃ auth, c = .store (.saveSshAuth auth) := by
  cases c with
  | memory c => cases h
  | env c => cases h
  | store c =>
    cases c with
    | saveSshAuth auth => exact ⟨auth, rfl⟩
    | _ => cases h

theorem after_read_ne_saved (request : SshRequest) (answer : signature.Answer c) :
    request.afterRead cp.ext authId c answer ≠ .saved := by
  unfold SshRequest.afterRead
  split
  · exact (listed_decided cp.ext _).ne_saved
  · simp

theorem saved_of_next {request : SshRequest} {φ : SshPhase} {answer : signature.Answer c}
    (hallowed : (sshProtocol cp.ext authId request).allowed φ c)
    (h : (sshProtocol cp.ext authId request).next φ c answer = .saved) :
    ∃ auth, c = .store (.saveSshAuth auth) ∧ request.MaySave auth := by
  cases φ with
  | saved => exact hallowed.elim
  | fresh =>
    change request.started authId = .saved at h
    cases request with
    | reject | connect => cases h
    | approve id =>
      dsimp only [SshRequest.started] at h
      split_ifs at h
  | reading => exact absurd h (after_read_ne_saved request answer)
  | holding =>
    change (if c.saves then SshPhase.saved else .holding) = .saved at h
    split_ifs at h with hsaves
    obtain ⟨auth, rfl⟩ := Call.eq_save_of_saves hsaves
    exact ⟨auth, rfl, hallowed⟩
  | settled =>
    change (if c.saves then SshPhase.saved else .settled) = .saved at h
    split_ifs at h with hsaves
    obtain ⟨auth, rfl⟩ := Call.eq_save_of_saves hsaves
    exact ⟨auth, rfl, hallowed.1⟩

theorem RejectionsSave.returned (h : RejectionsSave cp authId requests pool)
    (hreject : requests i = .reject authId) (hcall : pool.threads i = .call c next) (hreturned :
      (pool.advance handler (sshProtocols cp authId requests) i c next).returned i = true) :
    NotAccepted authId (handler c pool.state).2 := by
  have hallowed : (sshProtocols cp authId requests i).allowed (pool.phases i) c := by
    have hobeys := h i hreject
    rw [hcall] at hobeys
    exact hobeys.1
  have hsaved : (sshProtocols cp authId requests i).next (pool.phases i) c
      (handler c pool.state).1 = .saved := by
    have hobeys := h.advance hcall i hreject
    unfold Pool.returned at hreturned
    split at hreturned
    case h_1 _ hdone =>
      rw [hdone] at hobeys
      exact Pool.phases_advance_self.symm.trans hobeys
    case h_2 | h_3 => cases hreturned
  obtain ⟨auth, rfl, hmay⟩ := saved_of_next hallowed hsaved
  obtain ⟨rfl, hverdict⟩ := hmay authId hreject
  intro found hfound
  rw [Call.get_ssh_auth] at hfound
  cases (if_pos rfl).symm.trans hfound
  exact hverdict

/-- When a rejection returns while no request may write an acceptance of the same approval, the
approval is not accepted again as long as no new approval of it starts, under every schedule. -/
theorem rejection_durable (cp : ControlPlane) (requests : ι → SshRequest) (w : World)
    (authId : String) (before : List ι) (i : ι) (hreject : requests i = .reject authId)
    (pool pool' : SshPool ι)
    (hbefore : pool = (sshPool cp requests w).run handler (sshProtocols cp authId requests) before)
    (hstep : pool' = pool.step handler (sshProtocols cp authId requests) i)
    (hrunning : pool.ended i = false) (hreturned : pool'.returned i = true)
    (hfree : ∀ j, holdsAcceptance pool' j = false) (after : List ι)
    (hafter : pool'.Meets handler (sshProtocols cp authId requests)
      (StartsNoApproval authId requests) after) :
    NotAccepted authId (pool'.run handler (sshProtocols cp authId requests) after).state := by
  have hobeys : pool.Obeys (sshProtocols cp authId requests) (fun _ _ => True) ∧
      RejectionsSave cp authId requests pool := by
    rw [hbefore]
    refine Pool.run_invariant ?_ (fun i => (requests i).obeys) ?_ (Pool.meets_any _ before)
    · intro pool _ h i c next hcall _
      exact ⟨ssh_protocol_expects _ _ c pool.state, h.advance hcall⟩
    · intro i hi
      show ((requests i).op.program cp).Obeys (sshProtocol cp.ext authId (requests i)) .fresh _ _
      rw [hi]
      exact reject_ssh_obeys authId
  cases hcall : pool.threads i with
  | done result =>
    rw [Pool.ended, hcall] at hrunning
    cases hrunning
  | call c next =>
    have hadvance : pool' = pool.advance handler (sshProtocols cp authId requests) i c next := by
      rw [hstep]
      simp only [Pool.step, hcall]
    subst hadvance
    have hrejected : StaysRejected authId
        (pool.advance handler (sshProtocols cp authId requests) i c next) :=
      ⟨hobeys.2.returned hreject hcall hreturned, hfree⟩
    have hnext := hobeys.1.advance hcall (ssh_protocol_expects _ _ c pool.state)
    exact (hrejected.run hnext hafter).verdict

end Pool

/-! ## A rejection between a connection's read and its write -/

def shellRequests : Fin 3 → SshRequest
  | 0 | 2 => .connect ⟨1⟩ secondToFirst
  | 1 => .reject "token"

def shellUnder (schedule : List (Fin 3)) : SshPool (Fin 3) :=
  (sshPool checkServer shellRequests shellApproved).run handler
    (sshProtocols checkServer "token" shellRequests) schedule

def rejectionInTurn : List (Fin 3) := List.replicate 9 0 ++ List.replicate 2 1

theorem rejection_in_turn :
    (shellUnder rejectionInTurn).ended 1 = false ∧
    (shellUnder (rejectionInTurn ++ [1])).returned 1 = true ∧
    (∀ j, holdsAcceptance (shellUnder (rejectionInTurn ++ [1])) j = false) ∧
    (shellUnder (rejectionInTurn ++ [1])).Meets handler
      (sshProtocols checkServer "token" shellRequests)
      (StartsNoApproval "token" shellRequests) (List.replicate 14 2) := by
  decide +kernel

/-- One after the other, the rejection stays: the second connection is not accepted by it. -/
theorem rejection_durable_in_turn :
    (shellUnder (rejectionInTurn ++ [1])).returned 1 = true ∧
    NotAccepted "token" (shellUnder (rejectionInTurn ++ [1] ++ List.replicate 14 2)).state := by
  obtain ⟨hrunning, hreturned, hfree, hafter⟩ := rejection_in_turn
  have hsplit (before after : List (Fin 3)) : shellUnder (before ++ after) =
      (shellUnder before).run handler (sshProtocols checkServer "token" shellRequests) after := by
    simp only [shellUnder, Pool.run, List.foldl_append]
  refine ⟨hreturned, ?_⟩
  rw [hsplit]
  exact rejection_durable checkServer shellRequests shellApproved "token" rejectionInTurn 1
    rfl _ _ rfl
    (hsplit rejectionInTurn [1]) hrunning hreturned hfree (List.replicate 14 2) hafter

/-- The first connection is about to renew its acceptance, and the rejection returns. -/
def rejectionBetween : List (Fin 3) := List.replicate 8 0 ++ List.replicate 3 1

/-- The rejection returned, and then the connection wrote the acceptance back; nothing was approved
in between. -/
theorem rejection_overwritten :
    (shellUnder rejectionBetween).returned 1 = true ∧
    ((shellUnder rejectionBetween).state.db.getSshAuth "token").map SshAuth.verdict =
      some .rejected ∧
    ((shellUnder (rejectionBetween ++ [0])).state.db.getSshAuth "token").map SshAuth.verdict =
      some (.accepted "0") := by
  decide +kernel

end Crabscale.Control
