import Crabscale.Rust.SerdeJson
import Crabscale.Sql.Connection

/-!
# Backup and restore

A backup is a compressed JSON document of all rows of the tables and columns on a list. A restore
replaces those rows in one transaction, in which foreign keys are checked at the end. Both are
modelled over the schema that the migrations of the store end in.
-/

namespace Crabscale.Control.Backup

open Sql Rust Rust.SerdeJson

/-! ## The schema -/

/-- A column of text that is not `NULL`. -/
def textColumn (name : String) : Sql.Column := { name, affinity := .text, notNull := true }

/-- A column of integers that is not `NULL`. -/
def integerColumn (name : String) : Sql.Column := { name, affinity := .integer, notNull := true }

/-- A column of text that may be `NULL`. -/
def optionalText (name : String) : Sql.Column := { name, affinity := .text }

/-- A column of integers that may be `NULL`, such as the row id while a row is inserted. -/
def optionalInteger (name : String) : Sql.Column := { name, affinity := .integer }

/-- The text `[]`, which lists default to. -/
def emptyList : Sql.Value := .text "[]".toUTF8

def usersTable : Sql.Table where
  name := "users"
  columns := [optionalInteger "id", textColumn "login_name", textColumn "display_name",
    textColumn "created_at"]
  rowid := some "id"
  uniques := [["login_name"]]

def loginsTable : Sql.Table where
  name := "logins"
  columns := [optionalInteger "id", integerColumn "user_id", textColumn "provider",
    textColumn "login_name", textColumn "created_at"]
  rowid := some "id"
  uniques := [["provider", "login_name"]]
  foreignKeys := [⟨"user_id", "users", "id"⟩]

def nodesTable : Sql.Table where
  name := "nodes"
  columns := [optionalInteger "id", textColumn "stable_id", textColumn "name",
    optionalInteger "user_id", textColumn "node_key", textColumn "machine_key",
    textColumn "disco_key", textColumn "addresses", optionalText "allowed_ips",
    textColumn "endpoints", { textColumn "endpoint_types" with default := emptyList },
    integerColumn "home_derp", optionalText "hostinfo", textColumn "created", integerColumn "cap",
    optionalText "tags", integerColumn "machine_authorized",
    { integerColumn "ephemeral" with default := .integer 0 },
    { textColumn "advertised_routes" with default := emptyList },
    { textColumn "approved_routes" with default := emptyList }, optionalText "last_seen",
    optionalText "key_expiry"]
  rowid := some "id"
  uniques := [["stable_id"], ["node_key"]]
  foreignKeys := [⟨"user_id", "users", "id"⟩]

def preAuthKeysTable : Sql.Table where
  name := "pre_auth_keys"
  columns := [optionalInteger "id", textColumn "prefix", textColumn "secret_hash",
    integerColumn "reusable", integerColumn "ephemeral", optionalText "expiration",
    integerColumn "revoked", integerColumn "used", optionalText "tags", integerColumn "user_id",
    textColumn "created_at"]
  rowid := some "id"
  uniques := [["prefix"]]
  foreignKeys := [⟨"user_id", "users", "id"⟩]

def policiesTable : Sql.Table where
  name := "policies"
  columns := [optionalInteger "id", textColumn "name", textColumn "body", textColumn "created_at"]
  rowid := some "id"
  uniques := [["name"]]

def sessionsTable : Sql.Table where
  name := "sessions"
  columns := [optionalInteger "id", integerColumn "node_id", textColumn "machine_key",
    textColumn "created_at", textColumn "last_seen", optionalText "closed_at"]
  rowid := some "id"
  foreignKeys := [⟨"node_id", "nodes", "id"⟩]

/-- A primary key that is not an integer may be `NULL`. -/
def pendingRegistrationsTable : Sql.Table where
  name := "pending_registrations"
  columns := [optionalText "auth_id", textColumn "machine_key", textColumn "node_key",
    optionalText "hostinfo", textColumn "expiry", integerColumn "version",
    integerColumn "ephemeral", textColumn "created_at", textColumn "expires_at",
    textColumn "verdict"]
  uniques := [["auth_id"]]

def sshAuthsTable : Sql.Table where
  name := "ssh_auths"
  columns := [optionalText "auth_id", integerColumn "src_node_id", integerColumn "dst_node_id",
    textColumn "ssh_user", textColumn "local_user", textColumn "machine_key",
    textColumn "created_at", textColumn "expires_at", textColumn "verdict"]
  uniques := [["auth_id"]]

def storeSchema : Schema :=
  [usersTable, loginsTable, nodesTable, preAuthKeysTable, policiesTable, sessionsTable,
    pendingRegistrationsTable, sshAuthsTable]

/-! ## The format -/

def backupFormat : String := "crabscale-backup/v1"

def backupTables : List (String × List String) :=
  [("users", ["id", "login_name", "display_name", "created_at"]),
    ("logins", ["id", "user_id", "provider", "login_name", "created_at"]),
    ("nodes", ["id", "stable_id", "name", "user_id", "node_key", "machine_key", "disco_key",
      "addresses", "allowed_ips", "endpoints", "endpoint_types", "home_derp", "hostinfo", "created",
      "cap", "tags", "machine_authorized", "ephemeral", "advertised_routes", "approved_routes",
      "last_seen", "key_expiry"]),
    ("pre_auth_keys", ["id", "prefix", "secret_hash", "reusable", "ephemeral", "expiration",
      "revoked", "used", "tags", "user_id", "created_at"]),
    ("policies", ["id", "name", "body", "created_at"]),
    ("sessions", ["id", "node_id", "machine_key", "created_at", "last_seen", "closed_at"]),
    ("pending_registrations", ["auth_id", "machine_key", "node_key", "hostinfo", "expiry",
      "version", "ephemeral", "created_at", "expires_at", "verdict"]),
    ("ssh_auths", ["auth_id", "src_node_id", "dst_node_id", "ssh_user", "local_user", "machine_key",
      "created_at", "expires_at", "verdict"])]

inductive BackupError where
  | format (message : String)
  | unknownTable (table : String)
  | unsupportedValue (message : String)
  | sqlite (error : SqlError)
  | json (message : String)
  | io (message : String)

/-- The libraries that write and read documents. -/
structure Codec where
  toVec : SerdeJson.Value → Except String (List UInt8)
  fromSlice : List UInt8 → Except String SerdeJson.Value
  encodeAll : List UInt8 → Except String (List UInt8)
  decodeAll : List UInt8 → Except String (List UInt8)
  display : SerdeJson.Value → String

/-! ## Values -/

def sqliteToJson : Sql.Value → Except BackupError SerdeJson.Value
  | .null => .ok .null
  | .integer value => .ok (.number (.ofI64 value))
  | .real bits => .ok (.ofF64 bits)
  | .text bytes =>
    match String.fromUTF8? bytes with
    | some text => .ok (.string text)
    | none => .error (.unsupportedValue "text column is not valid UTF-8")
  | .blob _ =>
    .error (.unsupportedValue "blob columns are not supported by the v0.1 backup allowlist")

def jsonToSqlite (codec : Codec) : SerdeJson.Value → Except String Sql.Value
  | .null => .ok .null
  | .bool value => .ok (.integer (if value then 1 else 0))
  | .number value =>
    match value.asI64 with
    | some i => .ok (.integer i)
    | none =>
      if value.isU64 then
        .error ("integer " ++ codec.display (.number value) ++
          " exceeds the i64 range supported by the backup schema")
      else
        match value.asFloat with
        | some bits => .ok (.real bits)
        | none => .error ("unsupported JSON number " ++ codec.display (.number value))
  | .string value => .ok (.text value.toUTF8)
  | other => .error ("unsupported JSON type " ++ codec.display other)

/-! ## Backup -/

section

variable (engine : Engine) (codec : Codec)

/-- `SELECT` some columns `FROM` a table. -/
def selectFrom (table : String) (columns : List String) : SqlM BackupError (List Row) :=
  match storeSchema.find? (·.name = table) with
  | none => .fail (.sqlite (.noSuchTable table))
  | some found => query fun db => found.select engine columns (db table)

def rowToJson (columns : List String) (row : Row) : Except BackupError SerdeJson.Value := do
  let entries ← (columns.zip row).mapM fun (column, value) => do
    return (column, ← sqliteToJson value)
  return .object (insertAll entries [])

def exportTable (table : String) (columns : List String) :
    SqlM BackupError (List SerdeJson.Value) := do
  let rows ← selectFrom engine table columns
  .ofExcept (rows.mapM (rowToJson columns))

def exportTables : List (String × List String) → SqlM BackupError (List (String × SerdeJson.Value))
  | [] => return []
  | (table, columns) :: tables => do
      let rows ← exportTable engine table columns
      return (table, .array rows) :: (← exportTables tables)

def writeBackup (now : String) : SqlM BackupError (List UInt8) := do
  let tables ← transaction storeSchema .sqlite (exportTables engine backupTables)
  let document : SerdeJson.Value := .object (insertAll
    [("format", .string backupFormat), ("created_at", .string now),
      ("tables", .object (insertAll tables []))] [])
  let json ← .ofExcept ((codec.toVec document).mapError .json)
  .ofExcept ((codec.encodeAll json).mapError .io)

/-! ## Restore -/

/-- `DELETE FROM` a table. -/
def deleteFrom (table : String) (db : Database) : Except SqlError Database :=
  match storeSchema.find? (·.name = table) with
  | none => .error (.noSuchTable table)
  | some _ => .ok (Function.update db table [])

/-- `INSERT INTO` a table. -/
def insertInto (table : String) (columns : List String) (values : List Sql.Value) (db : Database) :
    Except SqlError Database :=
  match storeSchema.find? (·.name = table) with
  | none => .error (.noSuchTable table)
  | some found => do
      let rows ← found.insert engine columns values (db table)
      return Function.update db table rows

def quoted (name : String) : String := "`" ++ name ++ "`"

def jsonToCell (table column : String) : Option SerdeJson.Value → Except BackupError Sql.Value
  | none => .error (.format
      ("backup row for " ++ quoted table ++ " is missing column " ++ quoted column))
  | some value => (jsonToSqlite codec value).mapError .unsupportedValue

def jsonToRow (table : String) (columns : List String) (row : SerdeJson.Value) :
    Except BackupError (List Sql.Value) :=
  match row.asObject with
  | none => .error (.format "backup table row is not an object")
  | some fields => columns.mapM fun column => jsonToCell codec table column (fields.lookup column)

def importTable (table : String) (columns : List String) (rows : List SerdeJson.Value) :
    SqlM BackupError Unit :=
  rows.forM fun row => do
    let values ← .ofExcept (jsonToRow codec table columns row)
    execute storeSchema .sqlite (insertInto engine table columns values)

def replaceTables (tables : List (String × SerdeJson.Value)) : SqlM BackupError Unit := do
  deferForeignKeys
  backupTables.reverse.forM fun (table, _) => execute storeSchema .sqlite (deleteFrom table)
  backupTables.forM fun (table, columns) => do
    match (tables.lookup table).bind SerdeJson.Value.asArray with
    | none => .fail (.format ("backup is missing table " ++ quoted table))
    | some rows => importTable engine codec table columns rows

def documentTables (document : SerdeJson.Value) :
    Except BackupError (List (String × SerdeJson.Value)) := do
  match (document.get "format").bind SerdeJson.Value.asStr with
  | none => throw (.format "missing `format` field")
  | some format =>
    if format ≠ backupFormat then
      throw (.format ("unsupported format " ++ quoted format ++
        " (expected " ++ quoted backupFormat ++ ")"))
    match (document.get "tables").bind SerdeJson.Value.asObject with
    | none => throw (.format "missing `tables` object")
    | some tables =>
      match tables.find? fun (table, _) => !backupTables.any fun (name, _) => name = table with
      | some (table, _) => throw (.unknownTable table)
      | none => return tables

def restoreBackup (compressed : List UInt8) : SqlM BackupError Unit := do
  let json ← .ofExcept ((codec.decodeAll compressed).mapError .io)
  let document ← .ofExcept ((codec.fromSlice json).mapError .json)
  let tables ← .ofExcept (documentTables document)
  transaction storeSchema .sqlite (replaceTables engine codec tables)

end

end Crabscale.Control.Backup
