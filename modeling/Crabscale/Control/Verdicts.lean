import Crabscale.Control.KeyBinding

/-!
# Verdicts over pending registrations

An approval does not look at the verdict that a registration already has (`verdict_overturned`).
`verdict_final`: as long as approvals find their registration pending, a rejection stays one, and an
approval stays one for the same user, in every run.
-/

namespace Crabscale.Control

open Rust Proto Policy Interaction Interaction.Program

variable {cp : ControlPlane} {op : Op} {w₀ w : World} {authId : String} {verdict : PendingVerdict}

/-! ## The environment of a run -/

theorem Since.step {start : World} {n : Nat} (h : Since start n w) (op : Op) :
    Since start n (op.exec cp w) :=
  Op.keeps_world (fun _ c hw _ => hw.call c) h

theorem Runs.since {C : World → Op → Prop} {P : World → Prop} {start : World}
    (h : Runs cp C P start w) : Since start start.env.position w := by
  induction h with
  | refl _ => exact .refl start
  | step _ _ _ ih => exact ih.step _

def NeverDrawn (authId : String) (w : World) : Prop :=
  ∀ i, w.env.position ≤ i → w.env.secrets i ≠ authId

theorem NeverDrawn.later {start : World} (h : NeverDrawn authId start)
    (hsince : Since start start.env.position w) : NeverDrawn authId w := by
  intro i hi
  rw [hsince.secrets]
  exact h i (hsince.le.trans hi)

/-! ## Verdicts that stay -/

def ApprovesPending (authId : String) (w : World) (op : Op) : Prop :=
  ∀ login, op.Approves w authId login → ∀ entry, w.db.getPending authId = some entry →
    entry.verdict = .pending

def Decided (authId : String) (verdict : PendingVerdict) (db : Db) : Prop :=
  ∀ entry, db.getPending authId = some entry → entry.verdict = verdict ∨ entry.verdict = .rejected

/-- What an operation can have made of a registration: nothing, or a rejected one. -/
def Untouched (authId : String) (op : Op) (w₀ w : World) : Prop :=
  ∀ entry, w.db.getPending authId = some entry →
    w₀.db.getPending authId = some entry ∨ op = .rejectPending authId ∧ entry.verdict = .rejected

theorem Untouched.call (hdecided : Decided authId verdict w₀.db) (hverdict : verdict ≠ .pending)
    (happroves : ApprovesPending authId w₀ op) (hnew : NeverDrawn authId w₀)
    (h : Untouched authId op w₀ w) {c : Call} (hc : Acts cp op w₀ w c) :
    Untouched authId op w₀ (handler c w).2 := by
  intro entry hentry
  have hid := (Db.get_pending_eq_some.mp hentry).1
  obtain hstored | rfl := Call.get_pending_cases hentry
  · exact h entry hstored
  cases hc with
  | start _ hdrawn hsecret _ _ => exact (hnew _ hdrawn (hsecret.symm.trans hid)).elim
  | @approve id userName before user hop hbefore _ _ _ hsaved =>
    -- The registration was stored with its verdict when the operation started, and not pending.
    obtain rfl : id = authId := by
      rw [← hid, hsaved]
      exact (Db.get_pending_eq_some.mp hbefore).1.symm
    obtain hstart | ⟨rfl, -⟩ := h before hbefore
    · have hpending := happroves userName hop before hstart
      obtain hsame | hrejected := hdecided before hstart
      · exact (hverdict (hsame.symm.trans hpending)).elim
      · rw [hrejected] at hpending
        cases hpending
    · exact hop.elim
  | @reject id before hop hbefore hsaved =>
    obtain rfl : id = authId := by
      rw [← hid, hsaved]
      exact (Db.get_pending_eq_some.mp hbefore).1.symm
    exact .inr ⟨hop, by rw [hsaved]⟩

theorem Decided.step (hverdict : verdict ≠ .pending) (happroves : ApprovesPending authId w op)
    (hnew : NeverDrawn authId w) (h : Decided authId verdict w.db) :
    Decided authId verdict (op.exec cp w).db := by
  have huntouched : Untouched authId op w (op.exec cp w) :=
    Op.keeps_world (fun _ _ hw hc => Untouched.call h hverdict happroves hnew hw hc)
      fun _ hentry => .inl hentry
  intro entry hentry
  obtain hstart | ⟨-, hrejected⟩ := huntouched entry hentry
  · exact h entry hstart
  · exact .inr hrejected

theorem Decided.run {P : World → Prop} {start : World} (hverdict : verdict ≠ .pending)
    (hnew : NeverDrawn authId start) (h : Decided authId verdict start.db)
    (hrun : Runs cp (ApprovesPending authId) P start w) : Decided authId verdict w.db := by
  induction hrun with
  | refl _ => exact h
  | step hbefore happroves _ ih => exact ih.step hverdict happroves (hnew.later hbefore.since)

/-! ## Answers to followups -/

theorem any_triple {α : Type} (p : ControlM α) (P : World → Prop) : Yields P p (fun _ _ => True) :=
  (triple_any (I := fun _ => True) (fun _ _ _ => trivial) p).pre fun _ _ => trivial

theorem auth_id_from_followup_ne_empty {followup : String}
    (h : authIdFromFollowup followup = some authId) : followup ≠ "" := by
  rintro rfl
  have hnone : authIdFromFollowup "" = none := by decide
  rw [hnone] at h
  cases h

theorem poll_followup_unauthorized {machineKey : MachineKey} {request : RegisterRequest}
    (hauth : authIdFromFollowup request.followup = some authId) {n : Nat} {db₁ : Db}
    (hnot : ∀ entry userId tags, db₁.getPending authId = some entry →
      entry.verdict ≠ .approved userId tags) (now : String) :
    Yields (At w₀ n (· = db₁)) (cp.pollFollowup machineKey request now)
      (fun response _ => response.machineAuthorized = false) := by
  unfold ControlPlane.pollFollowup
  rw [hauth]
  refine (get_pending_entry_spec any_call_allows_quiet authId (· = db₁)).bind fun found => ?_
  cases found with
  | none => exact triple_pure fun _ _ => rfl
  | some entry =>
    dsimp only
    split
    · exact triple_pure fun _ _ => rfl
    split
    · exact Triple.bind (any_triple _ _) fun _ => triple_pure fun _ _ => rfl
    cases hverdict : entry.verdict with
    | pending => exact triple_pure fun _ _ => rfl
    | rejected => exact Triple.bind (any_triple _ _) fun _ => triple_pure fun _ _ => rfl
    | approved userId tags =>
      exact Triple.assume (φ := False) (fun w hw => hnot entry userId tags (hw.1.1 ▸ hw.1.2)
        hverdict) fun h => h.elim

theorem followup_unauthorized {machineKey : MachineKey} {request : RegisterRequest}
    (hauth : authIdFromFollowup request.followup = some authId)
    (hnot : ∀ entry userId tags, w.db.getPending authId = some entry →
      entry.verdict ≠ .approved userId tags) {response : RegisterResponse} {w' : World}
    (hrun : exec (cp.register machineKey request) w = (.ok response, w')) :
    response.machineAuthorized = false := by
  have hbody : Yields (· = w) (cp.registerBody machineKey request)
      (fun response _ => response.machineAuthorized = false) := by
    rw [register_body_eq]
    have hboot : Leads cp (.register machineKey request) w (· = w) cp.bootstrap
        (fun _ w' => Started cp w.db w'.db ∧ Since w w.env.position w' ∧ w' = cp.bootstrapped w) :=
      bootstrap_spec
    refine Triple.bind (hboot.guard fun _ _ _ => trivial) fun _ => ?_
    intro w₁ hw₁
    obtain ⟨hstarted, hsince, -⟩ := hw₁
    refine (quiet_bind (R := (· = w₁.db)) any_call_allows_quiet (now_quiet cp) fun now => ?_) w₁
      ⟨rfl, hsince⟩
    unfold ControlPlane.registerAt
    rw [if_pos (auth_id_from_followup_ne_empty hauth)]
    refine poll_followup_unauthorized hauth (fun entry userId tags hentry => ?_) now
    exact hnot entry userId tags ((hstarted.get_pending authId).symm.trans hentry)
  have hregister : Yields (· = w) (cp.register machineKey request)
      (fun response _ => response.machineAuthorized = false) := by
    refine hbody.attempt.bind fun result => ?_
    cases result with
    | ok answer => exact triple_pure fun _ hw => hw
    | error error => exact triple_pure fun _ _ => rfl
  exact hregister.ok rfl hrun

/-! ## Runs -/

/-- In every run in which approvals find the registration pending, and no registration gets its auth
id again: after a rejection no followup is authorized, and after an approval the registration stays
approved for the same user for as long as it is approved. -/
theorem verdict_final {w₁ w₂ : World}
    (hrun : Runs cp (ApprovesPending authId) (fun _ => True) w₁ w₂) (hnew : NeverDrawn authId w₁) :
    (∀ w₀, exec (cp.rejectPending authId) w₀ = (.ok (), w₁) →
      ∀ machineKey request response w₃, authIdFromFollowup request.followup = some authId →
        exec (cp.register machineKey request) w₂ = (.ok response, w₃) →
        response.machineAuthorized = false) ∧
    (∀ w₀ login, exec (cp.approvePending authId login) w₀ = (.ok (), w₁) →
      ∃ userId tags, (w₁.db.getPending authId).map (·.verdict) = some (.approved userId tags) ∧
        ∀ entry userId' tags', w₂.db.getPending authId = some entry →
          entry.verdict = .approved userId' tags' → userId' = userId) := by
  refine ⟨fun w₀ hreject machineKey request response w₃ hauth hregister => ?_,
    fun w₀ login happrove => ?_⟩
  · have hspec : Leads cp (.rejectPending authId) w₀
        (At w₀ w₀.env.position fun _ => True) (cp.rejectPending authId)
        (fun _ w => ∃ entry, w.db.getPending authId = some entry ∧ entry.verdict = .rejected) :=
      reject_pending_spec rfl
    obtain ⟨entry, hentry, hverdict⟩ := hspec.ok ⟨trivial, .refl w₀⟩ hreject
    have hdecided : Decided authId .rejected w₁.db := fun other hother => by
      rw [hentry] at hother
      cases hother
      exact .inr hverdict
    refine followup_unauthorized hauth (fun entry userId tags hstored happroved => ?_) hregister
    have hrejected := hdecided.run (by rintro ⟨⟩) hnew hrun entry hstored
    rw [happroved] at hrejected
    obtain h | h := hrejected <;> cases h
  · have hop : (Op.approvePending authId login).Approves w₀ authId login := ⟨rfl, rfl⟩
    obtain ⟨entry, user, hentry, hverdict, -, -⟩ := (approve_pending_spec hop).ok
      ⟨trivial, .refl w₀⟩ happrove
    refine ⟨user.id, approvedTags entry, by rw [hentry, Option.map_some, hverdict], ?_⟩
    intro later userId tags hlater happroved
    have hdecided : Decided authId (.approved user.id (approvedTags entry)) w₁.db :=
      fun other hother => by
        rw [hentry] at hother
        cases hother
        exact .inl hverdict
    obtain h | h := hdecided.run (by rintro ⟨⟩) hnew hrun later hlater
    · rw [happroved] at h
      cases h
      rfl
    · rw [happroved] at h
      cases h

def drawnOnce : Env := { stillEnv with secrets := fun i => if i < 6 then "token" else "spent" }

def asked : World := (askFor 1 7).exec openServer (openServer.withStore Db.empty drawnOnce)

def rejected : World := (Op.rejectPending "token").exec openServer asked

def pollToken : RegisterRequest :=
  { version := 113, nodeKey := ⟨7⟩, followup := "https://tailnet.example/register/token" }

theorem rejected_ok : exec (openServer.rejectPending "token") asked = (.ok (), rejected) := by
  rfl

theorem never_drawn_once {w : World} (hsecrets : w.env.secrets = drawnOnce.secrets)
    (hposition : 6 ≤ w.env.position) : NeverDrawn "token" w := by
  intro i hi hdrawn
  rw [hsecrets] at hdrawn
  change (if i < 6 then "token" else "spent") = "token" at hdrawn
  rw [if_neg (by omega)] at hdrawn
  revert hdrawn
  decide

/-- The followup of the rejected registration is not authorized. -/
theorem verdict_final_rejected :
    ∃ response w, exec (openServer.register ⟨1⟩ pollToken) rejected = (.ok response, w) ∧
      response.machineAuthorized = false :=
  ⟨_, _, rfl, (verdict_final (.refl trivial) (never_drawn_once rfl (by decide +kernel))).1 asked
    rejected_ok ⟨1⟩ pollToken _ _ (by decide +kernel) rfl⟩

/-- A rejected registration is approved, and its followup is authorized; an approved registration is
approved for another user. -/
theorem verdict_overturned :
    (exec (openServer.rejectPending "token") asked).1.toOption = some () ∧
      (exec (openServer.register ⟨1⟩ pollToken) (approve.exec openServer rejected)).1.toOption.map
        RegisterResponse.machineAuthorized = some true ∧
      (exec (openServer.approvePending "token" "owner@example.com") asked).1.toOption = some () ∧
      ((approve.exec openServer asked).db.getPending "token").map (·.verdict) =
        some (.approved 1 none) ∧
      (((Op.approvePending "token" "other@example.com").exec openServer
        (approve.exec openServer asked)).db.getPending "token").map (·.verdict) =
        some (.approved 2 none) := by
  decide +kernel

end Crabscale.Control
