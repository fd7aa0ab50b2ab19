import Crabscale.Control.Registry

/-!
# The durable store

The tables of the SQLite database and the functions of the `Store` trait on them. The constraints
are fields of `Db`, so a table that breaks one cannot be built; a statement commits new tables when
they satisfy the constraints and otherwise leaves the database as it was.

A new row takes the largest row id plus one. `lastInsertRowid` is the row id of the last insert into
any table, which an `ON CONFLICT DO UPDATE` that updates does not change. A conflict on the named
target is found before any other constraint is checked.
-/

namespace Crabscale.Control

open Rust Proto

/-- A row of `pending_registrations`, with the hidden row id of a table keyed by text. -/
structure PendingRow where
  rowid : Nat
  entry : PendingRegistration
  deriving DecidableEq

/-- A row of `ssh_auths`, with the hidden row id of a table keyed by text. -/
structure SshAuthRow where
  rowid : Nat
  auth : SshAuth
  deriving DecidableEq

/-- The rows of every table, and the row id of the last insert. -/
structure Tables where
  users : List User := []
  logins : List Login := []
  nodes : List Node := []
  preAuthKeys : List PreAuthKey := []
  pending : List PendingRow := []
  sshAuths : List SshAuthRow := []
  lastInsertRowid : Nat := 0
  deriving DecidableEq

/-- The constraints of the schema. Node rows are kept in the order of their ids, which is the order
in which they are listed. -/
structure Tables.Valid (t : Tables) : Prop where
  userIds : (t.users.map User.id).Nodup
  userIdsPos : ∀ user ∈ t.users, 0 < user.id
  userNames : (t.users.map User.loginName).Nodup
  loginIds : (t.logins.map Login.id).Nodup
  loginSubjects : (t.logins.map fun login => (login.provider, login.loginName)).Nodup
  loginUsers : ∀ login ∈ t.logins, login.userId ∈ t.users.map User.id
  nodeIds : t.nodes.Pairwise (fun a b => a.id < b.id)
  nodeIdsPos : ∀ node ∈ t.nodes, 0 < node.id
  stableIds : (t.nodes.map Node.stableId).Nodup
  nodeKeys : (t.nodes.map Node.nodeKey).Nodup
  nodeUsers : ∀ node ∈ t.nodes, ∀ userId ∈ node.userId, userId ∈ t.users.map User.id
  keyIds : (t.preAuthKeys.map PreAuthKey.id).Nodup
  keyPrefixes : (t.preAuthKeys.map PreAuthKey.keyPrefix).Nodup
  keyUsers : ∀ key ∈ t.preAuthKeys, key.userId ∈ t.users.map User.id
  pendingIds : (t.pending.map fun row => row.entry.authId).Nodup
  sshAuthIds : (t.sshAuths.map fun row => row.auth.authId).Nodup

instance (t : Tables) : Decidable t.Valid :=
  decidable_of_iff
    ((t.users.map User.id).Nodup ∧ (∀ user ∈ t.users, 0 < user.id) ∧
      (t.users.map User.loginName).Nodup ∧ (t.logins.map Login.id).Nodup ∧
      (t.logins.map fun login => (login.provider, login.loginName)).Nodup ∧
      (∀ login ∈ t.logins, login.userId ∈ t.users.map User.id) ∧
      t.nodes.Pairwise (fun a b => a.id < b.id) ∧ (∀ node ∈ t.nodes, 0 < node.id) ∧
      (t.nodes.map Node.stableId).Nodup ∧ (t.nodes.map Node.nodeKey).Nodup ∧
      (∀ node ∈ t.nodes, ∀ userId ∈ node.userId, userId ∈ t.users.map User.id) ∧
      (t.preAuthKeys.map PreAuthKey.id).Nodup ∧ (t.preAuthKeys.map PreAuthKey.keyPrefix).Nodup ∧
      (∀ key ∈ t.preAuthKeys, key.userId ∈ t.users.map User.id) ∧
      (t.pending.map fun row => row.entry.authId).Nodup ∧
      (t.sshAuths.map fun row => row.auth.authId).Nodup)
    ⟨fun ⟨h₁, h₂, h₃, h₄, h₅, h₆, h₇, h₈, h₉, h₁₀, h₁₁, h₁₂, h₁₃, h₁₄, h₁₅, h₁₆⟩ =>
        ⟨h₁, h₂, h₃, h₄, h₅, h₆, h₇, h₈, h₉, h₁₀, h₁₁, h₁₂, h₁₃, h₁₄, h₁₅, h₁₆⟩,
      fun ⟨h₁, h₂, h₃, h₄, h₅, h₆, h₇, h₈, h₉, h₁₀, h₁₁, h₁₂, h₁₃, h₁₄, h₁₅, h₁₆⟩ =>
        ⟨h₁, h₂, h₃, h₄, h₅, h₆, h₇, h₈, h₉, h₁₀, h₁₁, h₁₂, h₁₃, h₁₄, h₁₅, h₁₆⟩⟩

def Tables.violation (t : Tables) : String :=
  if ¬(t.users.map User.id).Nodup then "UNIQUE constraint failed: users.id"
  else if ¬(t.users.map User.loginName).Nodup then "UNIQUE constraint failed: users.login_name"
  else if ¬(t.logins.map Login.id).Nodup then "UNIQUE constraint failed: logins.id"
  else if ¬(t.logins.map fun login => (login.provider, login.loginName)).Nodup then
    "UNIQUE constraint failed: logins.provider, logins.login_name"
  else if ¬(t.nodes.map Node.stableId).Nodup then "UNIQUE constraint failed: nodes.stable_id"
  else if ¬(t.preAuthKeys.map PreAuthKey.keyPrefix).Nodup then
    "UNIQUE constraint failed: pre_auth_keys.prefix"
  else "FOREIGN KEY constraint failed"

structure Db extends Tables where
  valid : toTables.Valid

def Db.empty : Db where
  valid := by decide

def Db.commit (t : Tables) : Except StoreError Db :=
  if h : t.Valid then .ok { t with valid := h } else .error (.sqlite t.violation)

def nextRowid (ids : List Nat) : Nat := ids.foldr max 0 + 1

def Db.statement {α : Type} (db : Db) (proposed : Tables) (answer : α) :
    Except StoreError α × Db :=
  match Db.commit proposed with
  | .ok db' => (.ok answer, db')
  | .error error => (.error error, db)

namespace Db

variable (db : Db)

/-! ## Users and logins -/

/-- Insert a user; id zero asks for a new row id. -/
def createUser (user : User) : Except StoreError User × Db :=
  let id := if user.id = 0 then nextRowid (db.users.map User.id) else user.id
  let row := { user with id }
  db.statement { db.toTables with users := db.users ++ [row], lastInsertRowid := id } row

def getUser (id : Nat) : Option User := db.users.find? (·.id == id)

def getUserByLoginName (loginName : String) : Option User :=
  db.users.find? (·.loginName == loginName)

/-- Insert a login; id zero asks for a new row id. -/
def createLogin (login : Login) : Except StoreError Login × Db :=
  let id := if login.id = 0 then nextRowid (db.logins.map Login.id) else login.id
  let row := { login with id }
  db.statement { db.toTables with logins := db.logins ++ [row], lastInsertRowid := id } row

def getLogin (id : Nat) : Option Login := db.logins.find? (·.id == id)

def getLoginByProviderSubject (provider subject : String) : Option Login :=
  db.logins.find? fun login => login.provider == provider && login.loginName == subject

def updateUserDisplayName (id : Nat) (displayName : String) : Except StoreError Unit × Db :=
  if db.users.any (·.id == id) then
    db.statement { db.toTables with
      users := db.users.map fun user =>
        if user.id = id then { user with displayName } else user } ()
  else (.error .notFound, db)

/-! ## Nodes -/

def getNodeByNodeKey (nodeKey : NodeKey) : Option Node := db.nodes.find? (·.nodeKey == nodeKey)

def getNodeById (id : Nat) : Option Node := db.nodes.find? (·.id == id)

def stableIdOf (id : Nat) : String := "n" ++ formatPadded 23 id

/-- `INSERT INTO nodes … ON CONFLICT(node_key) DO UPDATE`: every column but the id and the key is
overwritten when the key exists. -/
def insertOrUpdateNode (node : Node) : Except StoreError Db :=
  if (db.getNodeByNodeKey node.nodeKey).isSome then
    commit { db.toTables with
      nodes := db.nodes.map fun row =>
        if row.nodeKey = node.nodeKey then { node with id := row.id } else row }
  else
    let id := nextRowid (db.nodes.map Node.id)
    commit { db.toTables with nodes := db.nodes ++ [{ node with id }], lastInsertRowid := id }

/-- `UPDATE nodes SET stable_id = … WHERE id = …`. -/
def setStableId (id : Nat) (stableId : String) : Except StoreError Db :=
  commit { db.toTables with
    nodes := db.nodes.map fun row => if row.id = id then { row with stableId } else row }

/-- Insert or update a node by its node key, then give it a stable id when it has none. The row
that gets the stable id is the one with the node's own id or, for id zero, the last insert. -/
def upsertNode (node : Node) : Except StoreError Node × Db :=
  match db.insertOrUpdateNode node with
  | .error error => (.error error, db)
  | .ok db' =>
    let id := if node.id = 0 then db'.lastInsertRowid else node.id
    if node.stableId = "" then
      match db'.setStableId id (stableIdOf id) with
      | .error error => (.error error, db')
      | .ok db'' => (.ok { node with id, stableId := stableIdOf id }, db'')
    else (.ok { node with id }, db')

def deleteNode (nodeKey : NodeKey) : Except StoreError Unit × Db :=
  if (db.getNodeByNodeKey nodeKey).isSome then
    db.statement { db.toTables with nodes := db.nodes.filter (·.nodeKey ≠ nodeKey) } ()
  else (.error .notFound, db)

/-! ## Pre-auth keys -/

def createPreAuthKey (key : PreAuthKey) : Except StoreError PreAuthKey × Db :=
  let id := nextRowid (db.preAuthKeys.map PreAuthKey.id)
  let row := { key with id }
  db.statement
    { db.toTables with preAuthKeys := db.preAuthKeys ++ [row], lastInsertRowid := id } row

def getPreAuthKey (keyPrefix : String) : Option PreAuthKey :=
  db.preAuthKeys.find? (·.keyPrefix == keyPrefix)

def markPreAuthKeyUsed (id : Nat) : Except StoreError Unit × Db :=
  if db.preAuthKeys.any (·.id == id) then
    db.statement { db.toTables with
      preAuthKeys := db.preAuthKeys.map fun key =>
        if key.id = id then { key with used := true } else key } ()
  else (.error .notFound, db)

def revokePreAuthKey (keyPrefix : String) : Except StoreError Unit × Db :=
  if db.preAuthKeys.any (·.keyPrefix == keyPrefix) then
    db.statement { db.toTables with
      preAuthKeys := db.preAuthKeys.map fun key =>
        if key.keyPrefix = keyPrefix then { key with revoked := true } else key } ()
  else (.error .notFound, db)

/-! ## Pending registrations -/

def getPending (authId : String) : Option PendingRegistration :=
  (db.pending.find? (·.entry.authId == authId)).map PendingRow.entry

def savePending (entry : PendingRegistration) : Except StoreError Unit × Db :=
  if (db.getPending entry.authId).isSome then
    db.statement { db.toTables with
      pending := db.pending.map fun row =>
        if row.entry.authId = entry.authId then { row with entry } else row } ()
  else
    let rowid := nextRowid (db.pending.map PendingRow.rowid)
    db.statement { db.toTables with
      pending := db.pending ++ [{ rowid, entry }], lastInsertRowid := rowid } ()

def deletePending (authId : String) : Except StoreError Unit × Db :=
  db.statement { db.toTables with pending := db.pending.filter (·.entry.authId ≠ authId) } ()

/-! ## SSH approvals -/

def getSshAuth (authId : String) : Option SshAuth :=
  (db.sshAuths.find? (·.auth.authId == authId)).map SshAuthRow.auth

def listSshAuths : List SshAuth :=
  (db.sshAuths.map SshAuthRow.auth).insertionSort fun a b => a.createdAt ≤ b.createdAt

def saveSshAuth (auth : SshAuth) : Except StoreError Unit × Db :=
  if (db.getSshAuth auth.authId).isSome then
    db.statement { db.toTables with
      sshAuths := db.sshAuths.map fun row =>
        if row.auth.authId = auth.authId then { row with auth } else row } ()
  else
    let rowid := nextRowid (db.sshAuths.map SshAuthRow.rowid)
    db.statement { db.toTables with
      sshAuths := db.sshAuths ++ [{ rowid, auth }], lastInsertRowid := rowid } ()

def deleteSshAuth (authId : String) : Except StoreError Unit × Db :=
  db.statement { db.toTables with sshAuths := db.sshAuths.filter (·.auth.authId ≠ authId) } ()

end Db

end Crabscale.Control
