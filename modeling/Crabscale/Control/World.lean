import Crabscale.Control.Store
import Crabscale.Interaction.Program

/-!
# The state of the control plane and its atomic calls

Every operation is a `Program` over the calls below: the functions of the `Store` trait, each under
the connection's lock for one call, the operations on the in-memory components, and the clock, the
random generator and the OpenID Connect provider, which are arbitrary sequences of answers read by
position. `handler` says what a call does to the shared state, the `World`.
-/

namespace Crabscale.Control

open Rust Proto Interaction

inductive StoreCall where
  | createUser (user : User)
  | getUser (id : Nat)
  | getUserByLoginName (loginName : String)
  | createLogin (login : Login)
  | getLogin (id : Nat)
  | getLoginByProviderSubject (provider subject : String)
  | updateUserDisplayName (id : Nat) (displayName : String)
  | upsertNode (node : Node)
  | getNodeByNodeKey (nodeKey : NodeKey)
  | getNodeById (id : Nat)
  | listNodes
  | deleteNode (nodeKey : NodeKey)
  | createPreAuthKey (key : PreAuthKey)
  | getPreAuthKey (keyPrefix : String)
  | markPreAuthKeyUsed (id : Nat)
  | revokePreAuthKey (keyPrefix : String)
  | savePending (entry : PendingRegistration)
  | getPending (authId : String)
  | deletePending (authId : String)
  | saveSshAuth (auth : SshAuth)
  | getSshAuth (authId : String)
  | listSshAuths
  | deleteSshAuth (authId : String)

namespace StoreCall

@[reducible] def Result : StoreCall → Type
  | createUser _ => User
  | getUser _ | getUserByLoginName _ => Option User
  | createLogin _ => Login
  | getLogin _ | getLoginByProviderSubject _ _ => Option Login
  | upsertNode _ => Node
  | getNodeByNodeKey _ | getNodeById _ => Option Node
  | listNodes => List Node
  | createPreAuthKey _ => PreAuthKey
  | getPreAuthKey _ => Option PreAuthKey
  | getPending _ => Option PendingRegistration
  | getSshAuth _ => Option SshAuth
  | listSshAuths => List SshAuth
  | updateUserDisplayName _ _ | deleteNode _ | markPreAuthKeyUsed _ | revokePreAuthKey _
  | savePending _ | deletePending _ | saveSshAuth _ | deleteSshAuth _ => Unit

def exec (db : Db) : (c : StoreCall) → Except StoreError c.Result × Db
  | createUser user => db.createUser user
  | getUser id => (.ok (db.getUser id), db)
  | getUserByLoginName loginName => (.ok (db.getUserByLoginName loginName), db)
  | createLogin login => db.createLogin login
  | getLogin id => (.ok (db.getLogin id), db)
  | getLoginByProviderSubject provider subject =>
    (.ok (db.getLoginByProviderSubject provider subject), db)
  | updateUserDisplayName id displayName => db.updateUserDisplayName id displayName
  | upsertNode node => db.upsertNode node
  | getNodeByNodeKey nodeKey => (.ok (db.getNodeByNodeKey nodeKey), db)
  | getNodeById id => (.ok (db.getNodeById id), db)
  | listNodes => (.ok db.nodes, db)
  | deleteNode nodeKey => db.deleteNode nodeKey
  | createPreAuthKey key => db.createPreAuthKey key
  | getPreAuthKey keyPrefix => (.ok (db.getPreAuthKey keyPrefix), db)
  | markPreAuthKeyUsed id => db.markPreAuthKeyUsed id
  | revokePreAuthKey keyPrefix => db.revokePreAuthKey keyPrefix
  | savePending entry => db.savePending entry
  | getPending authId => (.ok (db.getPending authId), db)
  | deletePending authId => db.deletePending authId
  | saveSshAuth auth => db.saveSshAuth auth
  | getSshAuth authId => (.ok (db.getSshAuth authId), db)
  | listSshAuths => (.ok db.listSshAuths, db)
  | deleteSshAuth authId => db.deleteSshAuth authId

end StoreCall

inductive MemoryCall where
  | pendingInsert (entry : PendingRegistration)
  | pendingRemove (authId : String)
  | flowBegin (authId state nonce : String) (now : Int)
  | flowTake (state : String) (now : Int)
  | sessionOpen (nodeId : Nat) (ephemeral : Bool) (now : Int)
  | sessionClose (sessionId : Nat) (now : Int)
  | sessionTick (now : Int)
  | isOnline (nodeId : Nat)
  | publish (event : ChangeEvent)
  | flush
  | extraRecords
  | setExtraRecords (records : List DnsRecord)
  | derpMap
  | setDerpMap (map : DerpMap)

@[reducible] def MemoryCall.Result : MemoryCall → Type
  | pendingInsert _ | pendingRemove _ | flowBegin _ _ _ _ | publish _ | flush | setExtraRecords _
  | setDerpMap _ => Unit
  | flowTake _ _ => Option OidcFlow
  | sessionOpen _ _ _ => Nat × List SessionEvent
  | sessionClose _ _ => Bool
  | sessionTick _ => List SessionEvent
  | isOnline _ => Bool
  | extraRecords => List DnsRecord
  | derpMap => DerpMap

/-- The outcome of exchanging an authorization code with the OpenID Connect provider. -/
inductive OidcExchange where
  | verified (profile : OidcProfile)
  | invalid
  | taskFailed
  deriving DecidableEq

/-- Readings of the clock, draws of the random generator, answers of the OpenID Connect provider,
and how often a waiting SSH connection looks at its verdict before its deadline. -/
inductive EnvCall where
  | now
  | generateSecret
  | generateSalt
  | genRange (count : Nat)
  | oidcExchange
  | waitRounds

/-- What the environment answers. -/
@[reducible] def EnvCall.Result : EnvCall → Type
  | now => Int
  | generateSecret => String
  | generateSalt => List UInt8
  | genRange _ => Nat
  | oidcExchange => OidcExchange
  | waitRounds => Nat

inductive Call where
  | store (c : StoreCall)
  | memory (c : MemoryCall)
  | env (c : EnvCall)

/-- The calls of the control plane with their answers. -/
abbrev signature : Signature where
  Call := Call
  Answer
    | .store c => Except StoreError c.Result
    | .memory c => c.Result
    | .env c => c.Result

abbrev ControlM (α : Type) : Type := Program signature ControlError α

/-- The environment's answers by position, and how many were given. -/
structure Env where
  clock : Nat → Int
  secrets : Nat → String
  salts : Nat → List UInt8
  draws : Nat → Nat
  exchanges : Nat → OidcExchange := fun _ => .invalid
  rounds : Nat → Nat := fun _ => 0
  position : Nat := 0

/-- The shared state of a control plane. -/
structure World where
  db : Db
  pending : PendingCache
  flows : OidcFlowStore := {}
  sessions : SessionRegistry
  bus : ChangeBus
  extraRecords : List DnsRecord := []
  derpMap : DerpMap
  env : Env

def MemoryCall.exec (world : World) : (c : MemoryCall) → c.Result × World
  | pendingInsert entry => ((), { world with pending := world.pending.insert entry })
  | pendingRemove authId => ((), { world with pending := world.pending.remove authId })
  | flowBegin authId state nonce now =>
    ((), { world with flows := world.flows.begin authId state nonce now })
  | flowTake state now =>
    let (answer, flows) := world.flows.take state now
    (answer, { world with flows })
  | sessionOpen nodeId ephemeral now =>
    let (answer, sessions) := world.sessions.openSession nodeId ephemeral now
    (answer, { world with sessions })
  | sessionClose sessionId now =>
    let (answer, sessions) := world.sessions.closeSession sessionId now
    (answer, { world with sessions })
  | sessionTick now =>
    let (answer, sessions) := world.sessions.tick now
    (answer, { world with sessions })
  | isOnline nodeId => (world.sessions.isOnline nodeId, world)
  | publish event => ((), { world with bus := world.bus.publish event })
  | flush => ((), { world with bus := world.bus.flush })
  | extraRecords => (world.extraRecords, world)
  | setExtraRecords records => ((), { world with extraRecords := records })
  | derpMap => (world.derpMap, world)
  | setDerpMap map => ((), { world with derpMap := map })

def EnvCall.answer (env : Env) : (c : EnvCall) → c.Result
  | now => env.clock env.position
  | generateSecret => env.secrets env.position
  | generateSalt => env.salts env.position
  | genRange count => env.draws env.position % count
  | oidcExchange => env.exchanges env.position
  | waitRounds => env.rounds env.position

def handler : Handler signature World
  | .store c, world =>
    let (answer, db) := c.exec world.db
    (answer, { world with db })
  | .memory c, world => c.exec world
  | .env c, world =>
    (c.answer world.env,
      { world with env := { world.env with position := world.env.position + 1 } })

/-! ## Calls as programs -/

def store (c : StoreCall) : ControlM c.Result :=
  .call (.store c) fun answer =>
    match answer with
    | .ok result => pure result
    | .error error => throw (.store error.display)

def tryStore (c : StoreCall) : ControlM (Except StoreError c.Result) :=
  Program.perform (S := signature) (Call.store c)

def memory (c : MemoryCall) : ControlM c.Result := Program.perform (S := signature) (Call.memory c)

def environment (c : EnvCall) : ControlM c.Result := Program.perform (S := signature) (Call.env c)

def publishChange (event : ChangeEvent) : ControlM Unit := memory (.publish event)

structure ControlPlane where
  config : ControlConfig
  ext : Externals

def ControlPlane.withStore (cp : ControlPlane) (db : Db) (env : Env) : World where
  db := db
  pending := { limit := cp.config.pendingCacheLimit }
  sessions := { graceSeconds := cp.config.reconnectGraceSeconds }
  bus := { maxEvents := cp.config.changeBatchMax }
  derpMap := cp.config.derpMap
  env := env

/-- The current time as text. -/
def ControlPlane.nowRfc3339 (cp : ControlPlane) : ControlM String := do
  let now ← environment .now
  return cp.ext.formatRfc3339 now

def ControlPlane.nowPlusSeconds (cp : ControlPlane) (seconds : Int) : ControlM String := do
  let now ← environment .now
  return cp.ext.formatRfc3339 (now + seconds)

abbrev exec {α : Type} (p : ControlM α) (world : World) : Except ControlError α × World :=
  p.run handler world

end Crabscale.Control
