import Crabscale.Control.Register

/-!
# Approval through an OpenID Connect provider

With a provider configured, the page of a pending registration starts a flow and sends the browser
to the provider. The callback takes the flow, looks whether the registration is still there,
exchanges the code and approves the registration for the verified email.
-/

namespace Crabscale.Control

open Rust Proto Interaction

inductive Page where
  | plain (status : Nat) (text : String)
  | html (text : String)
  | redirect (location : String)
  deriving DecidableEq

def escapeHtml (text : String) : String :=
  String.join (text.toList.map fun c =>
    if c = '&' then "&amp;"
    else if c = '<' then "&lt;"
    else if c = '>' then "&gt;"
    else if c.toNat = 34 then "&quot;"
    else if c.toNat = 39 then "&#39;"
    else String.singleton c)

def pendingPage (authId : String) (pending : PendingRegistration) : Page :=
  let hostname := (pending.hostinfo.map Hostinfo.hostname).getD "unknown"
  .html ("<!doctype html><html><head><meta charset=\"utf-8\"><title>Pending registration</title>" ++
    "</head>             <body><h1>Pending registration</h1>             <p>Auth id: <code>" ++
    escapeHtml authId ++ "</code></p>             <p>Hostname: <code>" ++ escapeHtml hostname ++
    "</code></p>             <p>Expires: <code>" ++ escapeHtml pending.expiresAt ++
    "</code></p>             <p>Approve or reject this registration with the " ++
    "<code>crabscale auth</code> CLI.</p>             </body></html>")

def approvedPage (profile : OidcProfile) : Page :=
  .html
    ("<!doctype html><html><head><meta charset=\"utf-8\"><title>Registration approved</title>" ++
    "</head><body><h1>Registration approved</h1>" ++
    "<p>The node is now authorized to join the tailnet.</p><p>Login: <code>" ++
    escapeHtml profile.email ++ "</code></p></body></html>")

namespace ControlPlane

variable (cp : ControlPlane)

def pendingInfo (authId : String) : ControlM (Option PendingRegistration) := do
  let now ← cp.nowRfc3339
  match ← getPendingEntry authId with
  | none => return none
  | some entry =>
    if cp.ext.isPast entry.expiresAt now then
      removePendingEntry authId
      return none
    return some entry

/-! ## Users of the provider -/

def oidcUser (profile : OidcProfile) (now : String) : ControlM Nat := do
  match ← store (.getUserByLoginName profile.email) with
  | some user =>
    if user.displayName ≠ profile.displayName then
      store (.updateUserDisplayName user.id profile.displayName)
    return user.id
  | none =>
    let user ← store (.createUser
      { id := 0
        loginName := profile.email
        displayName := profile.displayName
        createdAt := now })
    return user.id

def ensureOidcLogin (profile : OidcProfile) (userId : Nat) (now : String) : ControlM Unit := do
  match ← store (.getLoginByProviderSubject "oidc" profile.subject) with
  | some _ => return
  | none =>
    let _ ← store (.createLogin
      { id := 0, userId, provider := "oidc", loginName := profile.subject, createdAt := now })

def upsertOidcUser (profile : OidcProfile) : ControlM Nat := do
  let now ← cp.nowRfc3339
  let userId ← oidcUser profile now
  ensureOidcLogin profile userId now
  return userId

/-! ## Pages -/

def startFlow (authorizationUrl : (state nonce : String) → Option String) (authId : String) :
    ControlM Page := do
  let now ← environment .now
  let state ← environment .generateSecret
  let nonce ← environment .generateSecret
  memory (.flowBegin authId state nonce now)
  match authorizationUrl state nonce with
  | some location => return .redirect location
  | none => return .plain 500 "failed to start OIDC authorization"

def handleRegisterPage (authId : String) : ControlM Page := do
  match ← (cp.pendingInfo authId).attempt with
  | .error _ => return .plain 500 "internal error"
  | .ok none => return .plain 404 "pending registration not found"
  | .ok (some pending) =>
    match cp.ext.oidc with
    | some authorizationUrl => startFlow authorizationUrl authId
    | none => return pendingPage authId pending

def approveFor (authId : String) (profile : OidcProfile) : ControlM Page := do
  match ← (cp.upsertOidcUser profile).attempt with
  | .error _ => return .plain 500 "failed to record OIDC identity"
  | .ok _ =>
    match ← (cp.approvePending authId profile.email).attempt with
    | .ok _ => return approvedPage profile
    | .error _ => return .plain 400 "registration is no longer pending"

def completeFlow (flow : OidcFlow) : ControlM Page := do
  match ← (cp.pendingInfo flow.authId).attempt with
  | .error _ | .ok none => return .plain 400 "registration is no longer pending"
  | .ok (some _) =>
    match ← environment .oidcExchange with
    | .verified profile => cp.approveFor flow.authId profile
    | .invalid => return .plain 400 "OIDC callback validation failed"
    | .taskFailed => return .plain 500 "OIDC exchange task failed"

def handleOidcCallback (params : BTreeMap String String) : ControlM Page := do
  if cp.ext.oidc.isNone then return .plain 404 "oidc not configured"
  if params.contains "error" then return .plain 400 "oidc provider reported an error"
  match params["state"]?, params["code"]? with
  | some state, some _ =>
    let now ← environment .now
    match ← memory (.flowTake state now) with
    | some flow => cp.completeFlow flow
    | none => return .plain 400 "invalid, expired, or reused OIDC state"
  | _, _ => return .plain 400 "missing state or code"

end ControlPlane

end Crabscale.Control
