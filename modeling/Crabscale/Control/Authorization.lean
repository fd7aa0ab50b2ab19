import Crabscale.Control.KeyBinding

/-!
# Who authorizes a node

A node key is newly authorized only by a registration that carries a usable pre-auth key, or by a
followup of its own approved registration (`authorized_by_key_or_approval`).
-/

namespace Crabscale.Control

open Rust Proto Policy Interaction

variable {cp : ControlPlane} {op : Op} {w₀ w : World} {nodeKey : NodeKey}

/-! ## What admits -/

structure PreAuthKey.Accepts (cp : ControlPlane) (key : PreAuthKey) (secret now : String) :
    Prop where
  secret : verifySecret cp.ext secret key.secretHash = true
  live : key.revoked = false
  unexpired : ∀ expiration, key.expiration = some expiration → cp.ext.isPast expiration now = false
  unused : key.reusable = false → key.used = false

theorem key_accepts_iff {key : PreAuthKey} {secret now : String} :
    cp.keyAccepts secret now key = true ↔ key.Accepts cp secret now := by
  unfold ControlPlane.keyAccepts
  simp only [Bool.and_eq_true, Bool.not_eq_true', Option.any_eq_false, Bool.and_eq_false_imp]
  constructor
  · rintro ⟨⟨⟨hsecret, hlive⟩, hunexpired⟩, hunused⟩
    exact ⟨hsecret, hlive, fun expiration h => by simpa using hunexpired expiration h, hunused⟩
  · intro h
    exact ⟨⟨⟨h.secret, h.live⟩, fun expiration he => by simpa using h.unexpired expiration he⟩,
      h.unused⟩

def CarriesKey (cp : ControlPlane) (w : World) (request : RegisterRequest) : Prop :=
  ∃ auth keyPrefix secret key, request.auth = some auth ∧
    parseAuthKey auth.authKey = some (keyPrefix, secret) ∧
    (cp.bootstrapped w).db.getPreAuthKey keyPrefix = some key ∧
    key.Accepts cp secret (cp.nowAt (cp.bootstrapped w))

/-- The registration follows up a stored registration of its machine and a node key that was
approved and has not expired when it decides. -/
def FollowsApproved (cp : ControlPlane) (w : World) (machineKey : MachineKey)
    (request : RegisterRequest) (nodeKey : NodeKey) : Prop :=
  ∃ authId entry userId tags, authIdFromFollowup request.followup = some authId ∧
    w.db.getPending authId = some entry ∧ entry.verdict = .approved userId tags ∧
    entry.machineKey = machineKey ∧ entry.nodeKey = nodeKey ∧
    cp.ext.isPast entry.expiresAt (cp.nowAt (cp.bootstrapped w)) = false

def Op.MayAuthorize (cp : ControlPlane) (w : World) (nodeKey : NodeKey) : Op → Prop
  | .register machineKey request =>
    (request.followup = "" ∧ request.nodeKey = nodeKey ∧ CarriesKey cp w request) ∨
      FollowsApproved cp w machineKey request nodeKey
  | _ => False

variable {machineKey : MachineKey}

theorem KeyPresented.accepts {request : RegisterRequest} {key : PreAuthKey}
    (h : KeyPresented cp op w₀ machineKey request key) :
    ∃ auth keyPrefix secret, request.auth = some auth ∧
      parseAuthKey auth.authKey = some (keyPrefix, secret) ∧
      (cp.bootstrapped w₀).db.getPreAuthKey keyPrefix = some key ∧
      key.Accepts cp secret (cp.nowAt (cp.bootstrapped w₀)) := by
  obtain ⟨auth, hauth, hvalid⟩ := h.valid
  unfold ControlPlane.validKey at hvalid
  cases hparse : parseAuthKey auth.authKey with
  | none =>
    rw [hparse] at hvalid
    cases hvalid
  | some parsed =>
    rw [hparse] at hvalid
    obtain ⟨hstored, haccepts⟩ := Option.filter_eq_some_iff.mp hvalid
    exact ⟨auth, parsed.1, parsed.2, hauth, hparse, hstored, key_accepts_iff.mp haccepts⟩

theorem KeyPresented.carries {request : RegisterRequest} {key : PreAuthKey}
    (h : KeyPresented cp op w₀ machineKey request key) : CarriesKey cp w₀ request := by
  obtain ⟨auth, keyPrefix, secret, hkey⟩ := h.accepts
  exact ⟨auth, keyPrefix, secret, key, hkey⟩

theorem KeyPresented.stored_or_plain {request : RegisterRequest}
    {key : PreAuthKey} (h : KeyPresented cp op w₀ machineKey request key) :
    key ∈ w₀.db.preAuthKeys ∨ key.tags = none := by
  obtain ⟨auth, keyPrefix, secret, -, -, hstored, -⟩ := h.accepts
  exact h.bootstrap.mem_keys (List.mem_of_find?_eq_some hstored)

theorem FollowupApproved.follows {entry : PendingRegistration} {userId : Nat}
    {tags : Option (List String)} (h : FollowupApproved cp op w₀ machineKey entry userId tags) :
    ∃ request, op = .register machineKey request ∧
      FollowsApproved cp w₀ machineKey request entry.nodeKey := by
  obtain ⟨request, authId, hop, hauth, hentry⟩ := h.op
  exact ⟨request, hop, authId, entry, userId, tags, hauth, hentry, h.verdict, h.machine,
    rfl, h.live⟩

/-! ## One call, one operation -/

theorem NodeAct.authorized {node : Node} (h : NodeAct cp op w₀ w node)
    (hnode : node.machineAuthorized = true) :
    w.db.authorizes node.nodeKey = true ∨ op.MayAuthorize cp w₀ node.nodeKey := by
  cases h with
  | edit _ hrow hedit =>
    exact .inl (Db.authorizes_iff.mpr ⟨_, hrow, hedit.same.nodeKey.symm, hedit.authorized hnode⟩)
  | reauthorize hkey _ _ hrowKey _ _ hrow =>
    subst hrow
    obtain rfl := hkey.op
    exact .inr (.inl ⟨hkey.followup, hrowKey.symm, hkey.carries⟩)
  | enroll hkey _ _ _ hrow =>
    subst hrow
    obtain rfl := hkey.op
    exact .inr (.inl ⟨hkey.followup, rfl, hkey.carries⟩)
  | complete happroved _ _ _ _ hrow =>
    subst hrow
    obtain ⟨request, rfl, hfollows⟩ := happroved.follows
    exact .inr (.inr hfollows)

theorem Acts.authorized {c : Call} (hc : Acts cp op w₀ w c)
    (h : (handler c w).2.db.authorizes nodeKey = true) :
    w.db.authorizes nodeKey = true ∨ op.MayAuthorize cp w₀ nodeKey := by
  obtain hsame | ⟨deleted, rfl⟩ | ⟨node, rfl⟩ := c.nodes_cases w
  · rw [Db.authorizes_congr hsame] at h
    exact .inl h
  · exact .inl (Db.authorizes_delete h)
  · obtain hstored | ⟨rfl, hnode⟩ := Db.authorizes_upsert h
    · exact .inl hstored
    · exact NodeAct.authorized hc hnode

/-- An operation after which a node key has an authorized row that had none before is a registration
that carries a usable pre-auth key, or a followup of the approved registration of that node key. -/
theorem authorized_by_key_or_approval (cp : ControlPlane) (op : Op) (w : World) (nodeKey : NodeKey)
    (hbefore : w.db.authorizes nodeKey = false)
    (hafter : (op.exec cp w).db.authorizes nodeKey = true) :
    ∃ machineKey request, op = .register machineKey request ∧
      ((request.followup = "" ∧ request.nodeKey = nodeKey ∧ CarriesKey cp w request) ∨
        FollowsApproved cp w machineKey request nodeKey) := by
  have hkeeps : (op.exec cp w).db.authorizes nodeKey = true →
      w.db.authorizes nodeKey = true ∨ op.MayAuthorize cp w nodeKey := by
    refine Op.keeps_world (I := fun w' => w'.db.authorizes nodeKey = true →
      w.db.authorizes nodeKey = true ∨ op.MayAuthorize cp w nodeKey) ?_ .inl
    intro w' c ih hc h
    exact (hc.authorized h).elim ih .inr
  have hmay := (hkeeps hafter).resolve_left (by rw [hbefore]; exact Bool.false_ne_true)
  cases op with
  | register machineKey request => exact ⟨machineKey, request, rfl, hmay⟩
  | _ => exact hmay.elim

/-- On an empty store, the first node is authorized by the configured key. -/
theorem authorized_by_key_first :
    ∃ machineKey request, registerFirst = .register machineKey request ∧
      ((request.followup = "" ∧ request.nodeKey = ⟨1⟩ ∧
          CarriesKey openServer (openServer.withStore Db.empty stillEnv) request) ∨
        FollowsApproved openServer (openServer.withStore Db.empty stillEnv) machineKey
          request ⟨1⟩) :=
  authorized_by_key_or_approval openServer registerFirst
    (openServer.withStore Db.empty stillEnv) ⟨1⟩ (by decide +kernel) (by decide +kernel)

end Crabscale.Control
