import Crabscale.Control.SshHistory
import Mathlib.Algebra.Order.Ring.Int

/-!
# How long an SSH approval lasts

An approval is dropped when its own expiry has passed, or when there are too many
(`approval_dropped`). `approval_lasts`: otherwise every new connection of the same kind is accepted
until the period of the check rule is over, which is counted exactly (`check_period_exact`) unless
the seconds do not fit (`check_period_wraps`).
-/

namespace Crabscale.Control

open Rust Proto Policy Interaction Interaction.Program

variable {cp : ControlPlane} {op : Op} {w₀ w : World} {authId : String}

/-! ## An approval that is kept -/

/-- An approval of a connection is stored with an expiry, and was last accepted at a time or
later. -/
def Lasting (cp : ControlPlane) (authId : String) (binding : SshBinding) (expiresAt : String)
    (time : Int) (db : Db) : Prop :=
  ∃ auth last, db.getSshAuth authId = some auth ∧ auth.expiresAt = expiresAt ∧
    auth.acceptedAt cp.ext binding = some last ∧ time ≤ last

def KeepsApproval (authId : String) (w : World) (op : Op) : Prop :=
  op ≠ .rejectSsh authId ∧ w.db.sshAuths.length ≤ defaultSshAuthLimit

theorem length_unexpired_at (cp : ControlPlane) (w : World) (i : Nat) :
    (unexpiredAt cp w i).length ≤ w.db.sshAuths.length := by
  refine (List.length_filter_le _ _).trans (Nat.le_of_eq ?_)
  rw [Db.listSshAuths, List.length_insertionSort, List.length_map]

section Step

variable {binding : SshBinding} {expiresAt : String} {time : Int} {n : Nat}

abbrev ClockFrom (cp : ControlPlane) (time : Int) (w : World) : Prop :=
  ∀ i, w.env.position ≤ i → time ≤ w.env.clock i ∧ ReadsBack cp.ext (w.env.clock i)

/-- The approval has not expired at any reading of the clock from a state on, up to a position. -/
abbrev LiveUntil (cp : ControlPlane) (expiresAt : String) (n : Nat) (w : World) : Prop :=
  ∀ i, w.env.position ≤ i → i < n →
    cp.ext.isPast expiresAt (cp.ext.formatRfc3339 (w.env.clock i)) = false

theorem Lasting.accept (h : Lasting cp authId binding expiresAt time w₀.db)
    (hclock : ClockFrom cp time w₀) {stored : SshAuth} {i : Nat} {db : Db}
    (hstored : w₀.db.getSshAuth stored.authId = some stored) (hid : stored.authId = authId)
    (hi : w₀.env.position ≤ i) (hsaved : db.getSshAuth authId = some
      { stored with verdict := .accepted (cp.ext.formatRfc3339 (w₀.env.clock i)) }) :
    Lasting cp authId binding expiresAt time db := by
  obtain ⟨found, last, hfound, hexpires, hwhen, -⟩ := h
  rw [hid, hfound] at hstored
  cases hstored
  obtain ⟨hbinding, -⟩ := SshAuth.accepted_at_eq_some.mp hwhen
  obtain ⟨hlater, hreads⟩ := hclock i hi
  exact ⟨_, _, hsaved, hexpires, SshAuth.accepted_at_eq_some.mpr ⟨hbinding, _, rfl, hreads⟩, hlater⟩

theorem Lasting.save (h : Lasting cp authId binding expiresAt time w₀.db)
    (hclock : ClockFrom cp time w₀) (hnew : NeverDrawn authId w₀) (hop : op ≠ .rejectSsh authId)
    {auth : SshAuth} {db : Db} (hc : SshSave cp op w₀ auth) (hid : auth.authId = authId)
    (hsaved : db.getSshAuth authId = some auth) : Lasting cp authId binding expiresAt time db := by
  cases hc with
  | ask _ hfrom hdrawn _ => exact absurd (hdrawn.symm.trans hid) (hnew _ hfrom)
  | renew _ hstored _ hfrom hauth =>
    subst hauth
    exact h.accept hclock hstored hid hfrom hsaved
  | approve _ hstored hfrom hauth =>
    subst hauth
    exact h.accept hclock hstored hid hfrom hsaved
  | reject hreject _ hauth =>
    subst hauth
    exact absurd (hid ▸ hreject) hop

theorem Lasting.not_dropped (h : Lasting cp authId binding expiresAt time w₀.db)
    (hlive : LiveUntil cp expiresAt n w₀) (hcount : w₀.db.sshAuths.length ≤ defaultSshAuthLimit)
    (hn : w.env.position ≤ n) : ¬SshDrop cp w₀ w authId := by
  intro hdrop
  cases hdrop with
  | expired hstored hfrom hto hpast =>
    obtain ⟨found, last, hfound, rfl, -⟩ := h
    rw [hfound] at hstored
    cases hstored
    rw [hlive _ hfrom (hto.trans_le hn)] at hpast
    cases hpast
  | crowded _ _ hlimit =>
    have := length_unexpired_at cp w₀
    exact absurd (hlimit.trans_le ((this _).trans hcount)) (Nat.lt_irrefl _)

theorem Lasting.call (hstart : Lasting cp authId binding expiresAt time w₀.db)
    (hclock : ClockFrom cp time w₀) (hlive : LiveUntil cp expiresAt n w₀)
    (hnew : NeverDrawn authId w₀) (hkeeps : KeepsApproval authId w₀ op) {c : Call}
    (h : w.env.position ≤ n → Lasting cp authId binding expiresAt time w.db)
    (hc : SshActs cp op w₀ w c) (hn : (handler c w).2.env.position ≤ n) :
    Lasting cp authId binding expiresAt time (handler c w).2.db := by
  have hbefore : w.env.position ≤ n := ((Since.refl w).call c).le.trans hn
  obtain hsame | ⟨saved, rfl, hid, hsaved⟩ | ⟨rfl, -⟩ := c.get_ssh_auth_cases w authId
  · obtain ⟨auth, last, hstored, hrest⟩ := h hbefore
    exact ⟨auth, last, hsame.trans hstored, hrest⟩
  · exact hstart.save hclock hnew hkeeps.1 hc hid hsaved
  · exact absurd hc (hstart.not_dropped hlive hkeeps.2 hbefore)

theorem Lasting.step (h : Lasting cp authId binding expiresAt time w.db)
    (hclock : ClockFrom cp time w) (hlive : LiveUntil cp expiresAt n w)
    (hnew : NeverDrawn authId w) (hkeeps : KeepsApproval authId w op)
    (hn : (op.exec cp w).env.position ≤ n) :
    Lasting cp authId binding expiresAt time (op.exec cp w).db :=
  Op.keeps_ssh (I := fun w' => w'.env.position ≤ n → Lasting cp authId binding expiresAt time w'.db)
    (fun _ _ hw hc => h.call hclock hlive hnew hkeeps hw hc) (fun _ => h) hn

theorem Lasting.run {P : World → Prop} {start : World}
    (h : Lasting cp authId binding expiresAt time start.db) (hclock : ClockFrom cp time start)
    (hlive : LiveUntil cp expiresAt n start) (hnew : NeverDrawn authId start)
    (hrun : Runs cp (KeepsApproval authId) P start w) (hn : w.env.position ≤ n) :
    Lasting cp authId binding expiresAt time w.db := by
  induction hrun with
  | refl _ => exact h
  | @step w op hbefore hkeeps _ ih =>
    have hsince := hbefore.since
    have hle : w.env.position ≤ (op.exec cp w).env.position := ((Since.refl w).step op).le
    refine (ih (hle.trans hn)).step ?_ ?_ (hnew.later hsince) hkeeps hn
    · intro i hi
      rw [hsince.clock]
      exact hclock i (hsince.le.trans hi)
    · intro i hi hin
      rw [hsince.clock]
      exact hlive i (hsince.le.trans hi) hin

end Step

/-! ## The answer to a new connection -/

/-- The start of the check period does not wrap around, unless the period reaches back before the
smallest time of an `i64`. -/
theorem check_window {now : Int} {checkPeriod : Nat} (hpast : 0 ≤ now) (hnow : now < 2 ^ 63)
    (hperiod : checkPeriod ≤ now + 2 ^ 63) :
    Int.bmod (now - Int.bmod checkPeriod (2 ^ 64)) (2 ^ 64) = now - checkPeriod := by
  rw [Int.sub_bmod_bmod]
  exact Int.bmod_eq_of_le (by omega) (by omega)

def AcceptedWithin (cp : ControlPlane) (binding : SshBinding) (checkPeriod : Nat)
    (w : World) : Prop :=
  ∃ found last, latestAcceptance cp.ext binding w.db.listSshAuths = some (found, last) ∧
    Int.bmod (w.env.clock w.env.position - Int.bmod checkPeriod (2 ^ 64)) (2 ^ 64) ≤ last

variable (cp) in
/-- A connection is accepted if its latest acceptance is not before the check period. The acceptance
is saved over itself; otherwise only the clock is read. -/
theorem recent_ssh_acceptance_spec {G : World → Call → Prop} (hG : AllowsQuiet G)
    (binding : SshBinding) (checkPeriod : Nat) (w : World)
    (hsave : ∀ found w' verdict, w.db.getSshAuth found.authId = some found → w'.db = w.db →
      G w' (.store (.saveSshAuth { found with verdict }))) :
    Triple handler G (· = w) (cp.recentSshAcceptance binding checkPeriod)
      (fun accepted w' => (accepted = true ↔ AcceptedWithin cp binding checkPeriod w) ∧
        (accepted = false → w' = w.tick))
      (fun _ _ => False) := by
  have hnow : (environment .now).run handler w = (.ok (w.env.clock w.env.position), w.tick) := rfl
  have hlist : (store .listSshAuths).run handler w.tick = (.ok w.db.listSshAuths, w.tick) := rfl
  have hclock : (environment .now).Calls Call.Quiet := calls_perform.mpr trivial
  have hreads : (store .listSshAuths).Calls Call.Quiet := calls_store trivial
  refine triple_bind_run (quiet_safe hclock hG _) hnow
    (triple_bind_run (quiet_safe hreads hG _) hlist ?_)
  unfold AcceptedWithin
  cases hlatest : latestAcceptance cp.ext binding w.db.listSshAuths with
  | none =>
    refine triple_pure fun _ hw => ⟨?_, fun _ => hw⟩
    simp
  | some latest =>
    obtain ⟨found, last⟩ := latest
    dsimp only
    split
    case isTrue hold =>
      refine triple_pure fun _ hw => ⟨iff_of_false Bool.false_ne_true ?_, fun _ => hw⟩
      rintro ⟨_, _, hfound, hrecent⟩
      cases hfound
      exact absurd hold (not_lt.mpr hrecent)
    case isFalse hrecent =>
      have hstored : w.db.getSshAuth found.authId = some found :=
        Db.mem_list_ssh_auths.mp (latest_acceptance_mem hlatest).1
      refine triple_bind_run (quiet_safe (now_quiet cp) hG _) (now_run cp w.tick) ?_
      refine Triple.bind (M := fun _ _ => True) (triple_store ?_ (fun _ _ _ _ _ => trivial) ?_)
        fun _ => triple_pure fun _ _ =>
          ⟨iff_of_true rfl ⟨found, last, rfl, not_lt.mp hrecent⟩, fun hfalse => by cases hfalse⟩
      · rintro _ rfl
        exact hsave found _ _ hstored rfl
      · intro w' _ error db hrun
        obtain ⟨db', hsaved, -⟩ := w'.db.save_ssh_auth_ok
          { found with verdict := .accepted (cp.nowAt w.tick) }
        cases hrun.symm.trans hsaved

section Checked

variable {binding : SshBinding} {dst src : Node} {rule : CompiledSshRule} {checkPeriod : Nat}
  (hdst : w.db.getNodeById binding.dstNodeId = some dst)
  (hsrc : w.db.getNodeById binding.srcNodeId = some src)
  (hrule : firstMatchingSshRule (compileSshPolicy cp.config.policy w.compileNodes)
    binding.srcNodeId binding.dstNodeId binding.sshUser = some rule)
  (haction : rule.action = .check checkPeriod)

include hdst hsrc hrule haction

/-- A new connection under a check rule is accepted, or asks for an approval, by its latest
acceptance. -/
theorem handle_ssh_action_checks :
    ∃ accepted w', (accepted = true ↔ AcceptedWithin cp binding checkPeriod w) ∧
      (accepted = false → w' = w.tick) ∧
      exec (cp.handleSshAction dst.machineKey binding none) w =
        exec (if accepted then pure acceptAction
          else cp.askForApproval dst.machineKey binding) w' := by
  have hspec := recent_ssh_acceptance_spec cp any_call_allows_quiet binding checkPeriod w
    fun _ _ _ _ _ => trivial
  obtain ⟨accepted, w', hrecent, haccepted, hfalse⟩ := hspec.total rfl
  refine ⟨accepted, w', haccepted, hfalse, ?_⟩
  unfold exec ControlPlane.handleSshAction
  rw [run_bind_ok handler (reads_get_node_by_id binding.dstNodeId w)]
  dsimp only
  rw [hdst]
  dsimp only
  rw [if_neg (not_not.mpr rfl), run_bind_ok handler (reads_get_node_by_id binding.srcNodeId w)]
  dsimp only
  rw [hsrc]
  dsimp only
  rw [ControlPlane.respondSshInitial, run_bind_ok handler (reads_compile_nodes w)]
  dsimp only
  rw [hrule]
  dsimp only
  rw [haction]
  dsimp only
  rw [run_bind_ok handler hrecent]

theorem handle_ssh_action_accepts (hrecent : AcceptedWithin cp binding checkPeriod w) :
    ∃ w', exec (cp.handleSshAction dst.machineKey binding none) w = (.ok acceptAction, w') := by
  obtain ⟨accepted, w', haccepted, -, hrun⟩ := handle_ssh_action_checks hdst hsrc hrule haction
  rw [haccepted.mpr hrecent] at hrun
  exact ⟨w', hrun⟩

variable (binding) in
theorem handle_ssh_action_asks (hold : ¬AcceptedWithin cp binding checkPeriod w) :
    exec (cp.handleSshAction dst.machineKey binding none) w =
      exec (cp.askForApproval dst.machineKey binding) w.tick := by
  obtain ⟨accepted, w', haccepted, hfalse, hrun⟩ := handle_ssh_action_checks hdst hsrc hrule haction
  have hnot : accepted = false := Bool.eq_false_iff.mpr (mt haccepted.mp hold)
  rw [hnot, hfalse hnot] at hrun
  exact hrun

end Checked

/-- A connection that was approved is accepted for the whole check period, as long as its approval
does not expire, is not rejected, and there are not too many approvals. -/
theorem approval_lasts (cp : ControlPlane) (authId : String) (w₀ w₁ w : World) (auth : SshAuth)
    (happroved : exec (cp.approveSsh authId) w₀ = (.ok (), w₁))
    (hauth : w₀.db.getSshAuth authId = some auth)
    (hclock : ClockFrom cp (w₀.env.clock w₀.env.position) w₀)
    (hnew : NeverDrawn authId w₁) (hrun : Runs cp (KeepsApproval authId) (fun _ => True) w₁ w)
    (hlive : LiveUntil cp auth.expiresAt w.env.position w₁) (dst src : Node)
    (hdst : w.db.getNodeById auth.dstNodeId = some dst)
    (hsrc : w.db.getNodeById auth.srcNodeId = some src) (rule : CompiledSshRule) (checkPeriod : Nat)
    (hrule : firstMatchingSshRule (compileSshPolicy cp.config.policy w.compileNodes) auth.srcNodeId
      auth.dstNodeId auth.sshUser = some rule)
    (haction : rule.action = .check checkPeriod) (hperiod : checkPeriod < 2 ^ 63)
    (hnow : 0 ≤ w.env.clock w.env.position ∧ w.env.clock w.env.position < 2 ^ 63)
    (hwithin : w.env.clock w.env.position ≤ w₀.env.clock w₀.env.position + checkPeriod) :
    ∃ w', exec (cp.handleSshAction dst.machineKey auth.binding none) w =
      (.ok acceptAction, w') := by
  have hw₁ : (Op.approveSsh authId).exec cp w₀ = w₁ := congrArg Prod.snd happroved
  have hsince₁ : Since w₀ w₀.env.position w₁ := hw₁ ▸ (Since.refl w₀).step _
  have hsince : Since w₁ w₁.env.position w := hrun.since
  obtain ⟨stored, hstored, -, hget⟩ := (settle_ssh_spec cp authId .accepted w₀).ok rfl happroved
  rw [hauth] at hstored
  cases hstored
  -- The approval is accepted as of the time of `approveSsh`, and stays so until the request.
  have hlasting₁ : Lasting cp authId auth.binding auth.expiresAt (w₀.env.clock w₀.env.position)
      w₁.db :=
    ⟨_, _, (hget authId).trans (if_pos rfl), rfl,
      SshAuth.accepted_at_eq_some.mpr ⟨rfl, _, rfl, (hclock _ (Nat.le_refl _)).2⟩, Int.le_refl _⟩
  have hclock₁ : ClockFrom cp (w₀.env.clock w₀.env.position) w₁ := by
    intro i hi
    rw [hsince₁.clock]
    exact hclock i (hsince₁.le.trans hi)
  obtain ⟨kept, last, hkept, -, hwhen, hlast⟩ :=
    hlasting₁.run hclock₁ hlive hnew hrun (Nat.le_refl _)
  have hmem : kept ∈ w.db.listSshAuths := by
    rw [Db.mem_list_ssh_auths, (Db.get_ssh_auth_eq_some.mp hkept).1]
    exact hkept
  obtain ⟨found, latest, hlatest, hle⟩ := latest_acceptance_le hmem hwhen
  refine handle_ssh_action_accepts hdst hsrc hrule haction ⟨found, latest, hlatest, ?_⟩
  rw [check_window hnow.1 hnow.2 (by omega)]
  omega

/-! ## Approvals that last and that do not -/

def clockEnv (clock : Nat → Int) : Env where
  clock
  secrets position := if position = 10 then "shell" else "other"
  salts _ := []
  draws position := position

/-- Two nodes registered, and a connection between them waits for an administrator. -/
def shellWaits (clock : Nat → Int) : World :=
  runOps checkServer [registerFirst, .register ⟨2⟩ (registerRequest 2), askForShell]
    (checkServer.withStore Db.empty (clockEnv clock))

/-- An administrator approved the connection. -/
def shellGranted (clock : Nat → Int) : World :=
  (Op.approveSsh "shell").exec checkServer (shellWaits clock)

def askTheOtherWay : Op :=
  .handleSshAction ⟨2⟩ { srcNodeId := 1, dstNodeId := 2, sshUser := "root", localUser := "" } none

/-- After the approval, there was a request for another connection. -/
def shellLater (clock : Nat → Int) : World := askTheOtherWay.exec checkServer (shellGranted clock)

theorem since_run_ops (ops : List Op) (w : World) : Since w w.env.position (runOps cp ops w) := by
  refine List.foldlRecOn ops _ (.refl w) ?_
  exact fun w' hw' op _ => hw'.step op

def stillClock (_ : Nat) : Int := 0

theorem shell_waits_since : Since (checkServer.withStore Db.empty (clockEnv stillClock)) 0
    (shellWaits stillClock) :=
  since_run_ops _ _

theorem shell_granted_since : Since (checkServer.withStore Db.empty (clockEnv stillClock)) 0
    (shellGranted stillClock) :=
  shell_waits_since.step _

example : (shellGranted stillClock).db.sshAuths.length = 1 := by decide +kernel

/-- The connection as it waits for an administrator. -/
def shellPending : SshAuth := { shellAuth with authId := "shell", verdict := .pending }

theorem shell_run :
    (exec (checkServer.approveSsh "shell") (shellWaits stillClock)).1 = .ok () ∧
    (shellWaits stillClock).db.getSshAuth "shell" = some shellPending ∧
    (shellGranted stillClock).env.position = 14 ∧
    (shellGranted stillClock).db.sshAuths.length ≤ defaultSshAuthLimit ∧
    ((shellLater stillClock).db.getNodeById 1).map Node.machineKey = some ⟨1⟩ ∧
    ((shellLater stillClock).db.getNodeById 2).isSome = true ∧
    (firstMatchingSshRule (compileSshPolicy checkServer.config.policy
      (shellLater stillClock).compileNodes) 2 1 "root").map CompiledSshRule.action =
        some (.check (12 * 60 * 60)) := by
  decide +kernel

/-- A request for another connection does not end the approval. -/
theorem approval_lasts_shell :
    ∃ w', exec (checkServer.handleSshAction ⟨1⟩ secondToFirst none) (shellLater stillClock) =
      (.ok acceptAction, w') := by
  obtain ⟨hok, hpending, hposition, hfew, hmachine, hsrc, hmatch⟩ := shell_run
  have hgranted : exec (checkServer.approveSsh "shell") (shellWaits stillClock) =
      (.ok (), shellGranted stillClock) := Prod.ext hok rfl
  have hclock : ClockFrom checkServer
      ((shellWaits stillClock).env.clock (shellWaits stillClock).env.position)
      (shellWaits stillClock) := by
    intro i _
    rw [shell_waits_since.clock]
    show (0 : Int) ≤ 0 ∧ ReadsBack checkServer.ext 0
    decide +kernel
  have hnew : NeverDrawn "shell" (shellGranted stillClock) := by
    intro i hi
    rw [shell_granted_since.secrets]
    show (if i = 10 then "shell" else "other") ≠ "shell"
    rw [if_neg (by omega)]
    decide
  have hrun : Runs checkServer (KeepsApproval "shell") (fun _ => True) (shellGranted stillClock)
      (shellLater stillClock) :=
    .step (.refl trivial) ⟨by simp [askTheOtherWay], hfew⟩ trivial
  have hlive : LiveUntil checkServer shellPending.expiresAt (shellLater stillClock).env.position
      (shellGranted stillClock) := by
    intro i _ _
    rw [shell_granted_since.clock]
    show checkServer.ext.isPast "900" (checkServer.ext.formatRfc3339 0) = false
    decide +kernel
  have hlater : (shellLater stillClock).env.clock = stillClock :=
    (shell_granted_since.step askTheOtherWay).clock
  have hnow : 0 ≤ (shellLater stillClock).env.clock (shellLater stillClock).env.position ∧
      (shellLater stillClock).env.clock (shellLater stillClock).env.position < 2 ^ 63 := by
    rw [hlater]
    show (0 : Int) ≤ 0 ∧ (0 : Int) < 2 ^ 63
    decide
  have hwithin : (shellLater stillClock).env.clock (shellLater stillClock).env.position ≤
      (shellWaits stillClock).env.clock (shellWaits stillClock).env.position +
        ((12 * 60 * 60 : Nat) : Int) := by
    rw [hlater, shell_waits_since.clock]
    show (0 : Int) ≤ 0 + ((12 * 60 * 60 : Nat) : Int)
    decide
  obtain ⟨dst, hdst, hdstMachine⟩ := Option.map_eq_some_iff.mp hmachine
  obtain ⟨src, hsrc⟩ := Option.isSome_iff_exists.mp hsrc
  obtain ⟨rule, hrule, haction⟩ := Option.map_eq_some_iff.mp hmatch
  have hresult := approval_lasts checkServer "shell" (shellWaits stillClock)
    (shellGranted stillClock)
    (shellLater stillClock) shellPending hgranted hpending hclock hnew hrun hlive dst src hdst hsrc
    rule (12 * 60 * 60) hrule haction (by decide) hnow hwithin
  rw [hdstMachine] at hresult
  exact hresult

/-- The clock shows a later time from the approval on. -/
def quarterPassed (position : Nat) : Int := if position < 14 then 0 else 1000

/-- The approval was given for twelve hours, but a request for another connection ends it after a
quarter of one. -/
theorem approval_dropped :
    (exec (checkServer.approveSsh "shell") (shellWaits quarterPassed)).1 = .ok () ∧
    (shellWaits quarterPassed).env.clock (shellWaits quarterPassed).env.position = 0 ∧
    (firstMatchingSshRule (compileSshPolicy checkServer.config.policy
      (shellLater quarterPassed).compileNodes) 2 1 "root").map CompiledSshRule.action =
        some (.check (12 * 60 * 60)) ∧
    (shellLater quarterPassed).env.clock (shellLater quarterPassed).env.position = 1000 ∧
    (exec (checkServer.handleSshAction ⟨1⟩ secondToFirst none)
      (shellLater quarterPassed)).1.toOption.map
      SshAction.accept = some false := by
  decide +kernel

end Crabscale.Control
