import Crabscale.Control.Map

/-!
# SSH approvals

The decision about an SSH connection in check mode: the compiled rules, the remembered approvals,
and the wait for an administrator. How often a waiting connection looks for its verdict is up to the
clock and the scheduler, and so an answer of the environment.
-/

namespace Crabscale.Control

open Rust Proto Policy Interaction

def defaultSshAuthTtlSeconds : Int := 15 * 60

def defaultSshAuthLimit : Nat := 1024

def SshVerdict.isAccepted : SshVerdict → Bool
  | .accepted _ => true
  | .pending | .rejected => false

def acceptAction : SshAction :=
  { message := "SSH connection accepted", accept := true, allowAgentForwarding := true
    allowLocalPortForwarding := true, allowRemotePortForwarding := true }

def rejectAction (message : String) : SshAction := { message, reject := true }

/-- One byte of a query component: unreserved characters stand for themselves. -/
def escapeByte (byte : UInt8) : List Char :=
  let c := Char.ofNat byte.toNat
  if c = ' ' then ['+']
  else if isAsciiAlphanumeric c || c ∈ ['-', '_', '.', '~'] then [c]
  else '%' :: (hexEncode [byte]).toList.map Char.toUpper

def urlQueryEscape (input : String) : String :=
  String.ofList ((asBytes input).flatMap escapeByte)

structure SshBinding where
  srcNodeId : Nat
  dstNodeId : Nat
  sshUser : String
  localUser : String
  deriving DecidableEq

/-- The connection that an approval was asked for. -/
def SshAuth.binding (auth : SshAuth) : SshBinding :=
  { srcNodeId := auth.srcNodeId
    dstNodeId := auth.dstNodeId
    sshUser := auth.sshUser
    localUser := auth.localUser }

def latestAcceptance (ext : Externals) (binding : SshBinding) (entries : List SshAuth) :
    Option (SshAuth × Int) :=
  entries.foldl
    (fun best entry =>
      if entry.binding ≠ binding then best
      else
        match entry.verdict with
        | .accepted lastAuthAt =>
          match ext.parseRfc3339 lastAuthAt with
          | some last => if best.all fun b => last > b.2 then some (entry, last) else best
          | none => best
        | .pending | .rejected => best)
    none

namespace ControlPlane

variable (cp : ControlPlane)

def buildSshActionUrl (binding : SshBinding) (authId : String) : String :=
  trimEndMatches '/' cp.config.serverUrl ++ "/machine/ssh/action/" ++ toString binding.srcNodeId ++
    "/to/" ++ toString binding.dstNodeId ++ "?auth_id=" ++ authId ++
    "&ssh_user=" ++ urlQueryEscape binding.sshUser ++
    "&local_user=" ++ urlQueryEscape binding.localUser

def recentSshAcceptance (binding : SshBinding) (checkPeriod : Nat) : ControlM Bool := do
  let now ← environment .now
  let entries ← store .listSshAuths
  match latestAcceptance cp.ext binding entries with
  | none => return false
  | some (entry, last) =>
    -- The period is cast from `u64` to `i64`, and the difference wraps around.
    if last < Int.bmod (now - Int.bmod checkPeriod (2 ^ 64)) (2 ^ 64) then return false
    let lastAuthAt ← cp.nowRfc3339
    store (.saveSshAuth { entry with verdict := .accepted lastAuthAt })
    return true

def deleteSshAuths (entries : List SshAuth) : ControlM Unit :=
  entries.forM fun entry => store (.deleteSshAuth entry.authId)

def pruneSshAuths (limit : Nat) : ControlM Unit := do
  let now ← cp.nowRfc3339
  let entries ← store .listSshAuths
  deleteSshAuths (entries.filter fun entry => cp.ext.isPast entry.expiresAt now)
  let remaining := entries.filter fun entry => !cp.ext.isPast entry.expiresAt now
  if remaining.length > limit then
    deleteSshAuths ((remaining.insertionSort fun a b => a.createdAt ≤ b.createdAt).take
      (remaining.length - limit))

def askForApproval (machineKey : MachineKey) (binding : SshBinding) : ControlM SshAction := do
  cp.pruneSshAuths defaultSshAuthLimit
  let authId ← environment .generateSecret
  let createdAt ← cp.nowRfc3339
  let expiresAt ← cp.nowPlusSeconds defaultSshAuthTtlSeconds
  store (.saveSshAuth
    { authId
      srcNodeId := binding.srcNodeId
      dstNodeId := binding.dstNodeId
      sshUser := binding.sshUser
      localUser := binding.localUser
      machineKey
      createdAt
      expiresAt
      verdict := .pending })
  return { message := "approval required"
           holdAndDelegate := cp.buildSshActionUrl binding authId
           allowAgentForwarding := true
           allowLocalPortForwarding := true
           allowRemotePortForwarding := true }

def respondSshInitial (machineKey : MachineKey) (binding : SshBinding) : ControlM SshAction := do
  let nodes ← compileNodes
  let policy := compileSshPolicy cp.config.policy nodes
  match firstMatchingSshRule policy binding.srcNodeId binding.dstNodeId binding.sshUser with
  | none => return rejectAction "no SSH rule permits this connection"
  | some rule =>
    match rule.action with
    | .accept => return acceptAction
    | .check checkPeriod =>
      if ← cp.recentSshAcceptance binding checkPeriod then return acceptAction
      cp.askForApproval machineKey binding

def waitSshVerdict (authId : String) : (rounds : Nat) → ControlM SshVerdict
  | 0 => throw .timeout
  | rounds + 1 => do
      match ← store (.getSshAuth authId) with
      | none => throw .notFound
      | some entry =>
        let now ← cp.nowRfc3339
        if cp.ext.isPast entry.expiresAt now then
          store (.deleteSshAuth authId)
          throw .notFound
        if entry.verdict ≠ .pending then return entry.verdict
        waitSshVerdict authId rounds

def verdictAction : SshVerdict → ControlM SshAction
  | .accepted _ => pure acceptAction
  | .rejected => pure (rejectAction "SSH request rejected")
  | .pending => throw .timeout

def liveSshAuth (authId now : String) : ControlM SshAuth := do
  match ← store (.getSshAuth authId) with
  | none => throw .notFound
  | some entry =>
    if cp.ext.isPast entry.expiresAt now then
      store (.deleteSshAuth authId)
      throw .notFound
    return entry

def respondSshFollowup (machineKey : MachineKey) (binding : SshBinding) (authId : String) :
    ControlM SshAction := do
  let now ← cp.nowRfc3339
  let entry ← cp.liveSshAuth authId now
  if entry.binding ≠ binding || entry.machineKey ≠ machineKey then throw (.sshBinding authId)
  if entry.verdict ≠ .pending then return ← verdictAction entry.verdict
  let rounds ← environment .waitRounds
  let verdict ← cp.waitSshVerdict authId rounds
  verdictAction verdict

def handleSshAction (machineKey : MachineKey) (binding : SshBinding) (authId : Option String) :
    ControlM SshAction := do
  match ← store (.getNodeById binding.dstNodeId) with
  | none => throw .notFound
  | some dst =>
    if dst.machineKey ≠ machineKey then throw .unauthorized
    match ← store (.getNodeById binding.srcNodeId) with
    | none => throw .notFound
    | some _ =>
      match authId with
      | some authId => cp.respondSshFollowup machineKey binding authId
      | none => cp.respondSshInitial machineKey binding

def approveSsh (authId : String) : ControlM Unit := do
  let now ← cp.nowRfc3339
  let entry ← cp.liveSshAuth authId now
  store (.saveSshAuth { entry with verdict := .accepted now })

def rejectSsh (authId : String) : ControlM Unit := do
  let now ← cp.nowRfc3339
  let entry ← cp.liveSshAuth authId now
  store (.saveSshAuth { entry with verdict := .rejected })

def listSshAuths : ControlM (List SshAuth) := do
  let now ← cp.nowRfc3339
  let entries ← store .listSshAuths
  return entries.filter fun entry => !cp.ext.isPast entry.expiresAt now

def sshAuthInfo (authId : String) : ControlM (Option SshAuth) := do
  let now ← cp.nowRfc3339
  match ← store (.getSshAuth authId) with
  | none => return none
  | some entry =>
    if cp.ext.isPast entry.expiresAt now then
      store (.deleteSshAuth authId)
      return none
    return some entry

end ControlPlane

end Crabscale.Control
