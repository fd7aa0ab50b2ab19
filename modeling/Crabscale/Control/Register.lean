import Crabscale.Control.World

/-!
# Registration, logout and administration

The operations of the control plane that create, authorize, change and remove nodes, as programs
over the atomic calls. `register` turns an error of its body into the error text of its response.
-/

namespace Crabscale.Control.ControlPlane

open Rust Proto Policy Interaction

variable (cp : ControlPlane)

/-! ## Responses -/

def authorizedResponse : RegisterResponse :=
  { user := cp.config.userId, login := cp.config.loginId, machineAuthorized := true }

/-- The node is not authorized. -/
def unauthorizedResponse (error : String) : RegisterResponse := { error }

def expiredResponse (error : String) : RegisterResponse := { nodeKeyExpired := true, error }

def pendingResponse (authId : String) : RegisterResponse :=
  { authUrl := cp.config.serverUrl ++ "/register/" ++ authId }

/-! ## Bootstrap -/

def ensureUser : ControlM Unit := do
  match ← store (.getUser cp.config.userId) with
  | some _ => return
  | none =>
    let _ ← store (.createUser
      { id := cp.config.userId
        loginName := cp.config.userLoginName
        displayName := cp.config.userDisplayName
        createdAt := controlTime })

def ensureLogin : ControlM Unit := do
  match ← store (.getLogin cp.config.loginId) with
  | some _ => return
  | none =>
    let _ ← store (.createLogin
      { id := cp.config.loginId
        userId := cp.config.userId
        provider := "authkey"
        loginName := cp.config.userLoginName
        createdAt := controlTime })

def ensureDefaultUser : ControlM Unit := do
  cp.ensureUser
  cp.ensureLogin

def createBootstrapKey (keyPrefix secret : String) : ControlM Unit := do
  let salt ← environment .generateSalt
  let now ← cp.nowRfc3339
  let _ ← store (.createPreAuthKey
    { id := 0
      keyPrefix
      secretHash := hashSecret cp.ext salt secret
      reusable := true
      ephemeral := false
      expiration := none
      revoked := false
      used := false
      tags := none
      userId := cp.config.userId
      createdAt := now })

def ensureBootstrapKey : ControlM Unit := do
  match parseAuthKey cp.config.authKey with
  | none => return
  | some (keyPrefix, secret) =>
    match ← store (.getPreAuthKey keyPrefix) with
    | some _ => return
    | none => cp.createBootstrapKey keyPrefix secret

/-! ## Helpers -/

def validatedAuthKey (auth : RegisterAuth) (now : String) : ControlM (Option PreAuthKey) := do
  match parseAuthKey auth.authKey with
  | none => return none
  | some (keyPrefix, secret) =>
    match ← store (.getPreAuthKey keyPrefix) with
    | none => return none
    | some key =>
      if !verifySecret cp.ext secret key.secretHash then return none
      else if key.revoked then return none
      else if key.expiration.any fun expiration => cp.ext.isPast expiration now then return none
      else if !key.reusable && key.used then return none
      else return some key

def resolveUserId (userName : String) : ControlM Nat := do
  match ← store (.getUserByLoginName userName) with
  | some user => return user.id
  | none =>
    let now ← cp.nowRfc3339
    let user ← store (.createUser
      { id := 0, loginName := userName, displayName := userName, createdAt := now })
    return user.id

def nodeOwnerLogin (node : Node) : ControlM (Option String) := do
  match node.userId with
  | none => return none
  | some userId => return (← store (.getUser userId)).map User.loginName

def untaggedOwner (node : Node) (authUserLogin : Option String) : ControlM Nat :=
  match node.userId with
  | some id => pure id
  | none =>
    match authUserLogin with
    | none => throw (.policy "cannot return a tagged node to user ownership without a user")
    | some login => cp.resolveUserId login

def applyRequestTags (node : Node) (authUserLogin : Option String) (requested : List String) :
    ControlM (Bool × Node) := do
  let current := sortDedup (node.tags.getD [])
  let requested := sortDedup requested
  if requested = current then return (false, node)
  else if requested = [] then
    let userId ← cp.untaggedOwner node authUserLogin
    return (true, { node with tags := none, userId := some userId })
  else
    let rejected := unauthorizedTags cp.config.policy authUserLogin requested
    if rejected ≠ [] then throw (.unauthorizedTags rejected)
    else return (true, { node with tags := some requested, userId := none })

def hostPart (address : String) : String := ((split '/' address).head?).getD address

def usedIpv4 (nodes : List Node) : List Ipv4Addr :=
  (nodes.flatMap Node.addresses).filterMap fun address => parseIpv4 (hostPart address)

def usedIpv6 (nodes : List Node) : List Ipv6Addr :=
  (nodes.flatMap Node.addresses).filterMap fun address =>
    if (parseIpv4 (hostPart address)).isSome then none else parseIpv6 (hostPart address)

/-- Draw addresses until one is free, at most `attempts` times. -/
def drawFree {α : Type} [DecidableEq α] (ofNat : Nat → α) (first count : Nat) (used : List α) :
    (attempts : Nat) → ControlM α
  | 0 => throw .ipAllocation
  | attempts + 1 => do
      let offset ← environment (.genRange count)
      let candidate := ofNat (first + offset)
      if candidate ∈ used then drawFree ofNat first count used attempts else return candidate

def allocationAttempts : Nat := 1024

def allocateIpv4 (used : List Ipv4Addr) : ControlM Ipv4Addr := do
  match ipv4HostRange cp.config.ipv4Prefix cp.config.ipv4PrefixLen with
  | none => throw .ipAllocation
  | some (first, count) =>
    drawFree (fun n => ⟨BitVec.ofNat 32 n⟩) first count used allocationAttempts

def allocateIpv6 (used : List Ipv6Addr) : ControlM Ipv6Addr := do
  match ipv6HostRange cp.config.ipv6Prefix cp.config.ipv6PrefixLen with
  | none => throw .ipAllocation
  | some (first, count) =>
    drawFree (fun n => ⟨BitVec.ofNat 128 n⟩) first count used allocationAttempts

def newNode (machineKey : MachineKey) (request : RegisterRequest) (userId : Nat)
    (tags : Option (List String)) (ephemeral : Bool) (now : String) (ipv4 : Ipv4Addr)
    (ipv6 : Ipv6Addr) : Node :=
  let hostname :=
    match request.hostinfo with
    | some hostinfo => if hostinfo.hostname = "" then "node" else hostinfo.hostname
    | none => "node"
  let addresses := [ipv4.display ++ "/32", ipv6.display ++ "/128"]
  { id := 0
    stableId := ""
    name := hostname ++ "." ++ cp.config.tailnetDomain ++ "."
    userId := if tags.any (· ≠ []) then none else some userId
    nodeKey := request.nodeKey
    machineKey
    discoKey := ⟨0⟩
    addresses
    allowedIps := some addresses
    endpoints := []
    endpointTypes := []
    homeDerp := 1
    hostinfo := request.hostinfo
    created := now
    cap := request.version
    tags
    advertisedRoutes := routeList request.hostinfo
    approvedRoutes := []
    machineAuthorized := true
    ephemeral
    lastSeen := some now
    keyExpiry := none }

def createNodeFromRequest (machineKey : MachineKey) (request : RegisterRequest) (userId : Nat)
    (tags : Option (List String)) (ephemeral : Bool) (now : String) : ControlM Node := do
  let nodes ← store .listNodes
  let ipv4 ← cp.allocateIpv4 (usedIpv4 nodes)
  let ipv6 ← cp.allocateIpv6 (usedIpv6 nodes)
  return cp.newNode machineKey request userId tags ephemeral now ipv4 ipv6

/-! ## Pending registrations -/

def getPendingEntry (authId : String) : ControlM (Option PendingRegistration) := do
  match ← store (.getPending authId) with
  | none => return none
  | some entry =>
    memory (.pendingInsert entry)
    return some entry

def removePendingEntry (authId : String) : ControlM Unit := do
  memory (.pendingRemove authId)
  store (.deletePending authId)

def savePendingEntry (entry : PendingRegistration) : ControlM Unit := do
  memory (.pendingInsert entry)
  store (.savePending entry)

def startInteractive (machineKey : MachineKey) (request : RegisterRequest) (now : String) :
    ControlM RegisterResponse := do
  let authId ← environment .generateSecret
  let expiresAt ← cp.nowPlusSeconds cp.config.pendingTtlSeconds
  savePendingEntry
    { authId
      machineKey
      nodeKey := request.nodeKey
      hostinfo := request.hostinfo
      expiry := request.expiry
      version := request.version
      ephemeral := request.ephemeral
      createdAt := now
      expiresAt
      verdict := .pending }
  return cp.pendingResponse authId

def admitNode (node : Node) : ControlM Unit := do
  let node ← store (.upsertNode node)
  publishChange (.nodeChanged node.id)

def completeFollowup (machineKey : MachineKey) (entry : PendingRegistration) (userId : Nat)
    (tags : Option (List String)) (now : String) : ControlM RegisterResponse := do
  removePendingEntry entry.authId
  -- A repeated followup of an authorized node succeeds at once.
  if (← store (.getNodeByNodeKey entry.nodeKey)).any fun node =>
      node.machineKey = machineKey && node.machineAuthorized then
    return cp.authorizedResponse
  let request : RegisterRequest :=
    { version := entry.version
      nodeKey := entry.nodeKey
      expiry := entry.expiry
      hostinfo := entry.hostinfo
      ephemeral := entry.ephemeral }
  let node ← cp.createNodeFromRequest machineKey request userId tags entry.ephemeral now
  admitNode node
  return cp.authorizedResponse

def pollFollowup (machineKey : MachineKey) (request : RegisterRequest) (now : String) :
    ControlM RegisterResponse := do
  match authIdFromFollowup request.followup with
  | none => return unauthorizedResponse "invalid followup URL"
  | some authId =>
    match ← getPendingEntry authId with
    | none => return unauthorizedResponse "registration expired; start a new registration"
    | some entry =>
      if entry.machineKey ≠ machineKey then
        return unauthorizedResponse "auth id does not match machine key"
      if cp.ext.isPast entry.expiresAt now then
        removePendingEntry authId
        return unauthorizedResponse "registration expired; start a new registration"
      match entry.verdict with
      | .pending => return cp.pendingResponse entry.authId
      | .rejected =>
        removePendingEntry authId
        return unauthorizedResponse "registration rejected"
      | .approved userId tags => cp.completeFollowup machineKey entry userId tags now

def livePendingEntry (authId : String) : ControlM PendingRegistration := do
  let now ← cp.nowRfc3339
  match ← getPendingEntry authId with
  | none => throw .notFound
  | some entry =>
    if cp.ext.isPast entry.expiresAt now then
      removePendingEntry authId
      throw .notFound
    return entry

def approvePending (authId userName : String) : ControlM Unit := do
  let entry ← cp.livePendingEntry authId
  let userId ← cp.resolveUserId userName
  let requested := requestedTags entry.hostinfo
  let rejected := unauthorizedTags cp.config.policy (some userName) requested
  if rejected ≠ [] then throw (.unauthorizedTags rejected)
  let tags := if requested = [] then none else some requested
  savePendingEntry { entry with verdict := .approved userId tags }

def rejectPending (authId : String) : ControlM Unit := do
  let entry ← cp.livePendingEntry authId
  savePendingEntry { entry with verdict := .rejected }

/-! ## Logout -/

/-- The answer to a logout. -/
def loggedOutResponse (nodeKeyExpired : Bool) : RegisterResponse :=
  { nodeKeyExpired, error := "node logged out" }

def logoutNode (node : Node) (nodeKeyExpired : Bool) : ControlM RegisterResponse := do
  if node.tags.isSome then return cp.authorizedResponse
  if node.ephemeral then
    store (.deleteNode node.nodeKey)
    publishChange (.nodeRemoved node.id)
    return loggedOutResponse nodeKeyExpired
  let updated ← store (.upsertNode { node with machineAuthorized := false })
  publishChange (.nodeChanged updated.id)
  return loggedOutResponse nodeKeyExpired

def logout (machineKey : MachineKey) (nodeKey : NodeKey) : ControlM RegisterResponse := do
  match (← store (.getNodeByNodeKey nodeKey)).filter (·.machineKey = machineKey) with
  | none => throw .notFound
  | some node => cp.logoutNode node false

/-! ## Registration -/

def saveNode (node : Node) : ControlM Unit := do
  let _ ← store (.upsertNode node)
  publishChange (.nodeChanged node.id)

def consumeKey (key : PreAuthKey) : ControlM Unit := do
  if !key.reusable then store (.markPreAuthKeyUsed key.id)

def relogin (node : Node) (request : RegisterRequest) : ControlM RegisterResponse := do
  let owner ← nodeOwnerLogin node
  let (changed, updated) ← cp.applyRequestTags node owner (requestedTags request.hostinfo)
  if changed then saveNode updated
  return cp.authorizedResponse

def reauthorize (node : Node) (key : PreAuthKey) : ControlM RegisterResponse := do
  saveNode { node with machineAuthorized := true, tags := key.tags, ephemeral := key.ephemeral }
  consumeKey key
  return cp.authorizedResponse

def registerExisting (machineKey : MachineKey) (request : RegisterRequest) (now : String)
    (node : Node) : ControlM RegisterResponse := do
  if node.machineKey ≠ machineKey then
    return unauthorizedResponse "node key is already registered to another machine"
  if request.expiry ≠ "" && cp.ext.isPast request.expiry now then return ← cp.logoutNode node true
  if request.expiry ≠ "" && cp.ext.isFuture request.expiry now then
    return unauthorizedResponse "clients may not extend their own key"
  if node.machineAuthorized then return ← cp.relogin node request
  match request.auth with
  | none => cp.startInteractive machineKey request now
  | some auth =>
    match ← cp.validatedAuthKey auth now with
    | some key => cp.reauthorize node key
    | none => cp.startInteractive machineKey request now

def registerWithKey (machineKey : MachineKey) (request : RegisterRequest) (now : String)
    (key : PreAuthKey) : ControlM RegisterResponse := do
  if key.tags = none && requestedTags request.hostinfo ≠ [] then
    throw (.policy "pre-auth key registrations may not request tags")
  let node ← cp.createNodeFromRequest machineKey request key.userId key.tags key.ephemeral now
  admitNode node
  consumeKey key
  return cp.authorizedResponse

def optionalAuthKey (auth : Option RegisterAuth) (now : String) : ControlM (Option PreAuthKey) :=
  match auth with
  | some auth => cp.validatedAuthKey auth now
  | none => pure none

def registerNew (machineKey : MachineKey) (request : RegisterRequest) (now : String) :
    ControlM RegisterResponse := do
  let key ← cp.optionalAuthKey request.auth now
  let isTaggedKey := (key.bind PreAuthKey.tags).any (· ≠ [])
  if !isTaggedKey && request.expiry ≠ "" && cp.ext.isPast request.expiry now then
    return expiredResponse "node key is expired"
  if !isTaggedKey && request.expiry ≠ "" && cp.ext.isFuture request.expiry now then
    return unauthorizedResponse "clients may not extend their own key"
  match key with
  | some key => cp.registerWithKey machineKey request now key
  | none => cp.startInteractive machineKey request now

/-- The body of `register`. -/
def registerBody (machineKey : MachineKey) (request : RegisterRequest) :
    ControlM RegisterResponse := do
  cp.ensureDefaultUser
  cp.ensureBootstrapKey
  let now ← cp.nowRfc3339
  if request.followup ≠ "" then return ← cp.pollFollowup machineKey request now
  match ← store (.getNodeByNodeKey request.nodeKey) with
  | some node => cp.registerExisting machineKey request now node
  | none => cp.registerNew machineKey request now

def register (machineKey : MachineKey) (request : RegisterRequest) : ControlM RegisterResponse := do
  match ← (cp.registerBody machineKey request).attempt with
  | .ok response => return response
  | .error error => return { error := error.display }

/-! ## Administration -/

def createPreAuthKey (keyPrefix : String) (reusable ephemeral : Bool) (expiration : Option String)
    (tags : Option (List String)) : ControlM String := do
  cp.ensureDefaultUser
  if keyPrefix = "" || !keyPrefix.toList.all isAsciiAlphanumeric then
    throw (.invalidAuthKey "prefix must be non-empty alphanumeric")
  let rejected := unauthorizedTags cp.config.policy (some cp.config.userLoginName) (tags.getD [])
  if rejected ≠ [] then
    throw (.policy ("creator may not approve tags: " ++ ", ".intercalate rejected))
  let secret ← environment .generateSecret
  let salt ← environment .generateSalt
  let now ← cp.nowRfc3339
  let _ ← store (.createPreAuthKey
    { id := 0
      keyPrefix
      secretHash := hashSecret cp.ext salt secret
      reusable
      ephemeral
      expiration
      revoked := false
      used := false
      tags
      userId := cp.config.userId
      createdAt := now })
  return formatAuthKey keyPrefix secret

def revokePreAuthKey (keyPrefix : String) : ControlM Unit := store (.revokePreAuthKey keyPrefix)

def routeTarget (nodeKey : NodeKey) (route : String) : ControlM (Node × String) := do
  match canonicalRoute route with
  | none => throw (.invalidRoute route)
  | some canonical =>
    match ← store (.getNodeByNodeKey nodeKey) with
    | none => throw .notFound
    | some node => return (node, canonical)

def approveRoute (nodeKey : NodeKey) (route : String) : ControlM Unit := do
  let (node, canonical) ← routeTarget nodeKey route
  if canonical ∈ node.approvedRoutes then return
  admitNode { node with approvedRoutes := sortDedup (node.approvedRoutes ++ [canonical]) }

def disapproveRoute (nodeKey : NodeKey) (route : String) : ControlM Unit := do
  let (node, canonical) ← routeTarget nodeKey route
  if canonical ∉ node.approvedRoutes then return
  admitNode { node with approvedRoutes := node.approvedRoutes.filter (· ≠ canonical) }

/-! ## Sessions -/

def openSession (nodeId : Nat) (ephemeral : Bool) : ControlM Nat := do
  let now ← environment .now
  let (sessionId, events) ← memory (.sessionOpen nodeId ephemeral now)
  events.forM fun
    | .online id => publishChange (.onlineChanged id true)
    | .offline _ | .ephemeralExpired _ => pure ()
  return sessionId

def closeSession (sessionId : Nat) : ControlM Unit := do
  let now ← environment .now
  let _ ← memory (.sessionClose sessionId now)

def reapEvent : SessionEvent → ControlM Unit
  | .offline nodeId => publishChange (.onlineChanged nodeId false)
  | .ephemeralExpired nodeId => do
      match ← tryStore (.getNodeById nodeId) with
      | .ok (some node) => let _ ← tryStore (.deleteNode node.nodeKey)
      | .ok none | .error _ => pure ()
      publishChange (.nodeRemoved nodeId)
  | .online _ => pure ()

def reapSessions : ControlM (List SessionEvent) := do
  let now ← environment .now
  let events ← memory (.sessionTick now)
  events.forM reapEvent
  return events

end Crabscale.Control.ControlPlane
