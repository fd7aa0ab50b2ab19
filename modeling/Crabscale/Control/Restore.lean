import Crabscale.Control.Backup

/-!
# What a restore brings back

A backup has all columns of all tables, each cell is read back from its JSON value, and the rows of
a valid state can be inserted into empty tables. A restore that fails leaves the database as it was,
since all its statements are in one transaction (`backup_restores`).
-/

namespace Crabscale.Control.Backup

open Sql Rust Rust.SerdeJson

/-! ## Tables and columns -/

theorem backup_tables_eq :
    backupTables = storeSchema.map fun table => (table.name, table.columnNames) := rfl

theorem nodup_tables : (storeSchema.map Sql.Table.name).Nodup := by decide +kernel

theorem nodup_columns : ∀ table ∈ storeSchema, table.columnNames.Nodup := by decide +kernel

theorem find_table {table : Sql.Table} (h : table ∈ storeSchema) :
    storeSchema.find? (·.name = table.name) = some table :=
  find?_eq_some_of_nodup Sql.Table.name nodup_tables h

/-! ## Values and rows -/

/-- A cell that a backup can hold: `NULL`, an integer or valid text. -/
def Storable : Sql.Value → Prop
  | .null | .integer _ => True
  | .text bytes => bytes.IsValidUTF8
  | .real _ | .blob _ => False

def cellJson (value : Sql.Value) : SerdeJson.Value :=
  match sqliteToJson value with
  | .ok json => json
  | .error _ => .null

variable {codec : Codec} {engine : Engine}

theorem text_to_json {bytes : ByteArray} (h : bytes.IsValidUTF8) :
    sqliteToJson (.text bytes) = .ok (.string (String.fromUTF8 bytes h)) := by
  have htext : String.fromUTF8? bytes = some (String.fromUTF8 bytes h) := dif_pos h
  simp only [sqliteToJson, htext]

theorem sqlite_to_json {value : Sql.Value} (h : Storable value) :
    sqliteToJson value = .ok (cellJson value) := by
  cases value with
  | null | integer _ => rfl
  | real _ | blob _ => exact h.elim
  | text bytes => rw [cellJson, text_to_json h]

theorem json_to_sqlite {value : Sql.Value} (h : Storable value) (codec : Codec) :
    jsonToSqlite codec (cellJson value) = .ok value := by
  cases value with
  | null => rfl
  | integer value =>
    show jsonToSqlite codec (.number (.ofI64 value)) = _
    simp only [jsonToSqlite, Number.as_i64_of_i64]
  | real _ | blob _ => exact h.elim
  | text bytes =>
    rw [cellJson, text_to_json h]
    rfl

theorem canonical_cell {value : Sql.Value} (h : Storable value) : Canonical (cellJson value) := by
  cases value with
  | null => exact .null
  | integer value => exact canonical_of_i64 value
  | real _ | blob _ => exact h.elim
  | text bytes =>
    rw [cellJson, text_to_json h]
    exact .string _

theorem map_m_ok {α β ε : Type} {items : List α} {f : α → Except ε β} {g : α → β}
    (h : ∀ item ∈ items, f item = .ok (g item)) : items.mapM f = .ok (items.map g) := by
  induction items with
  | nil => rfl
  | cons item items ih =>
    obtain ⟨hitem, hitems⟩ := List.forall_mem_cons.mp h
    rw [List.mapM_cons, hitem, ih hitems]
    rfl

def rowJson (columns : List String) (row : Row) : SerdeJson.Value :=
  .object (insertAll (columns.zip (row.map cellJson)) [])

theorem row_to_json {row : Row} (h : ∀ value ∈ row, Storable value) (columns : List String) :
    rowToJson columns row = .ok (rowJson columns row) := by
  unfold rowToJson
  rw [map_m_ok (g := Prod.map id cellJson), ← List.zip_map_right]
  · rfl
  · intro entry hentry
    obtain ⟨column, value⟩ := entry
    dsimp only
    rw [sqlite_to_json (h value (List.of_mem_zip hentry).2)]
    rfl

theorem map_m_json_to_cell {columns : List String} {row : Row}
    {found : String → Option SerdeJson.Value} (h : ∀ value ∈ row, Storable value)
    (hfound : columns.map found = row.map fun value => some (cellJson value)) (table : String) :
    (columns.mapM fun column => jsonToCell codec table column (found column)) = .ok row := by
  induction row generalizing columns with
  | nil =>
    rw [List.map_eq_nil_iff.mp hfound]
    rfl
  | cons value row ih =>
    cases columns with
    | nil => cases hfound
    | cons column columns =>
      obtain ⟨hvalue, hrow⟩ := List.forall_mem_cons.mp h
      obtain ⟨hfirst, hrest⟩ := List.cons_eq_cons.mp hfound
      rw [List.mapM_cons, hfirst, ih hrow hrest, jsonToCell, json_to_sqlite hvalue]
      rfl

theorem json_to_row {columns : List String} {row : Row} (hnodup : columns.Nodup)
    (hlen : columns.length = row.length) (h : ∀ value ∈ row, Storable value) (table : String) :
    jsonToRow codec table columns (rowJson columns row) = .ok row := by
  refine map_m_json_to_cell h ?_ table
  have hfst : (columns.zip (row.map cellJson)).map Prod.fst = columns :=
    List.map_fst_zip (by rw [List.length_map, hlen])
  have hzip := Sql.Table.lookup_zip (row.map cellJson) hnodup (by rw [List.length_map, hlen])
  rw [List.map_map] at hzip
  refine Eq.trans (List.map_congr_left fun column _ => ?_) hzip
  rw [lookup_insert_all (hfst.symm ▸ hnodup)]
  exact Option.or_none

theorem canonical_row {row : Row} (h : ∀ value ∈ row, Storable value) (columns : List String) :
    Canonical (rowJson columns row) := by
  refine canonical_insert_all fun entry hentry => ?_
  obtain ⟨value, hvalue, heq⟩ := List.mem_map.mp (List.of_mem_zip hentry).2
  exact heq ▸ canonical_cell (h value hvalue)

/-! ## Backup -/

/-- A valid state of the store whose cells a backup can hold. -/
structure Holdable (engine : Engine) (db : Database) : Prop where
  valid : storeSchema.Valid engine db
  storable : ∀ table ∈ storeSchema, ∀ row ∈ db table.name, ∀ value ∈ row, Storable value

def scanned (engine : Engine) (db : Database) (table : Sql.Table) : List Row :=
  engine.scan table.name (db table.name)

def tablesJson (engine : Engine) (db : Database) : List (String × SerdeJson.Value) :=
  storeSchema.map fun table =>
    (table.name, .array ((scanned engine db table).map (rowJson table.columnNames)))

def backupDocument (engine : Engine) (now : String) (db : Database) : SerdeJson.Value :=
  .object (insertAll [("format", .string backupFormat), ("created_at", .string now),
    ("tables", .object (insertAll (tablesJson engine db) []))] [])

section

variable {db : Database} (h : Holdable engine db)

include h

theorem Holdable.mem_scanned {table : Sql.Table} (htable : table ∈ storeSchema) {row : Row}
    (hrow : row ∈ scanned engine db table) :
    List.Forall₂ (table.Fits engine) table.columns row ∧ ∀ value ∈ row, Storable value := by
  have hmem := (engine.scan_perm table.name (db table.name)).mem_iff.mp hrow
  exact ⟨(h.valid.tables table htable).cells row hmem, h.storable table htable row hmem⟩

theorem Holdable.export_table {table : Sql.Table} (htable : table ∈ storeSchema) :
    Sql.Does (exportTable engine table.name table.columnNames) { tables := db }
      ((scanned engine db table).map (rowJson table.columnNames)) { tables := db } := by
  have hselect : table.select engine table.columnNames (db table.name) =
      scanned engine db table := by
    refine (List.map_congr_left fun row hrow => ?_).trans (List.map_id _)
    exact Sql.Table.map_cell (nodup_columns table htable) (h.mem_scanned htable hrow).1.length_eq
  have hrows : (scanned engine db table).mapM (rowToJson table.columnNames) =
      .ok ((scanned engine db table).map (rowJson table.columnNames)) :=
    map_m_ok fun row hrow => row_to_json (h.mem_scanned htable hrow).2 table.columnNames
  unfold exportTable selectFrom
  rw [find_table htable]
  refine (Sql.Does.query _).bind ?_
  rw [hselect]
  exact .of_except hrows

theorem Holdable.export_tables {tables : List Sql.Table}
    (htables : ∀ table ∈ tables, table ∈ storeSchema) :
    Sql.Does (exportTables engine (tables.map fun table => (table.name, table.columnNames)))
      { tables := db }
      (tables.map fun table =>
        (table.name, .array ((scanned engine db table).map (rowJson table.columnNames))))
      { tables := db } := by
  induction tables with
  | nil => exact .pure _
  | cons table tables ih =>
    obtain ⟨htable, htables⟩ := List.forall_mem_cons.mp htables
    exact (h.export_table htable).bind ((ih htables).bind (.pure _))

theorem Holdable.canonical_document (now : String) : Canonical (backupDocument engine now db) := by
  have htables : Canonical (.object (insertAll (tablesJson engine db) [])) := by
    refine canonical_insert_all fun entry hentry => ?_
    obtain ⟨table, htable, rfl⟩ := List.mem_map.mp hentry
    refine .array fun item hitem => ?_
    obtain ⟨row, hrow, rfl⟩ := List.mem_map.mp hitem
    exact canonical_row (h.mem_scanned htable hrow).2 table.columnNames
  refine canonical_insert_all (List.forall_mem_cons.mpr ⟨.string _, List.forall_mem_cons.mpr
    ⟨.string _, List.forall_mem_cons.mpr ⟨htables, List.forall_mem_nil _⟩⟩⟩)

end

theorem document_tables (engine : Engine) (now : String) (db : Database) :
    documentTables (backupDocument engine now db) = .ok (insertAll (tablesJson engine db) []) := by
  have hkeys : ["format", "created_at", "tables"].Nodup := by decide
  have hget (key : String) : (backupDocument engine now db).get key =
      [("format", .string backupFormat), ("created_at", .string now),
        ("tables", .object (insertAll (tablesJson engine db) []))].lookup key := by
    show (insertAll _ []).lookup key = _
    exact (lookup_insert_all (by exact hkeys) [] key).trans Option.or_none
  have hformat : (backupDocument engine now db).get "format" = some (.string backupFormat) :=
    (hget "format").trans rfl
  have htables : (backupDocument engine now db).get "tables" =
      some (.object (insertAll (tablesJson engine db) [])) := (hget "tables").trans rfl
  have hknown {entry : String × SerdeJson.Value}
      (hentry : entry ∈ insertAll (tablesJson engine db) []) :
      (backupTables.any fun known => known.1 = entry.1) = true := by
    obtain hmem | hmem := mem_insert_all hentry
    · obtain ⟨table, htable, heq⟩ := List.mem_map.mp hmem
      rw [← heq, backup_tables_eq, List.any_map, List.any_eq_true]
      exact ⟨table, htable, decide_eq_true rfl⟩
    · cases hmem
  unfold documentTables
  rw [hformat, htables]
  simp only [Option.bind_some, SerdeJson.Value.asStr, SerdeJson.Value.asObject]
  rw [if_neg (not_not.mpr rfl)]
  split
  case h_1 entry hfound =>
    have hunknown := List.find?_some hfound
    dsimp only at hunknown
    rw [hknown (List.mem_of_find?_eq_some hfound)] at hunknown
    cases hunknown
  case h_2 => rfl

/-! ## Restore -/

theorem import_rows {table : Sql.Table} (htable : table ∈ storeSchema) {db : Database}
    {before rows : List Row} (hwell : table.WellFormed engine (before ++ rows))
    (hstorable : ∀ row ∈ rows, ∀ value ∈ row, Storable value) :
    Sql.Does (importTable engine codec table.name table.columnNames
        (rows.map (rowJson table.columnNames)))
      { tables := Function.update db table.name before, deferred := true } ()
      { tables := Function.update db table.name (before ++ rows), deferred := true } := by
  induction rows generalizing before with
  | nil =>
    rw [List.append_nil]
    exact .pure _
  | cons row rows ih =>
    obtain ⟨hrow, hrows⟩ := List.forall_mem_cons.mp hstorable
    have hnodup := nodup_columns table htable
    have hlen : table.columnNames.length = row.length := by
      rw [Sql.Table.columnNames, List.length_map]
      exact (hwell.cells row (by simp)).length_eq
    have hinsert : insertInto engine table.name table.columnNames row
        (Function.update db table.name before) =
          .ok (Function.update db table.name (before ++ [row])) := by
      unfold insertInto
      rw [find_table htable]
      simp only [Function.update_self, hwell.insert hnodup]
      exact congrArg Except.ok (Function.update_idem ..)
    have hfirst : Sql.Does (do
        let values ← .ofExcept (jsonToRow codec table.name table.columnNames
          (rowJson table.columnNames row))
        execute storeSchema .sqlite (insertInto engine table.name table.columnNames values))
        { tables := Function.update db table.name before, deferred := true } ()
        { tables := Function.update db table.name (before ++ [row]), deferred := true } :=
      (Sql.Does.of_except (json_to_row hnodup hlen hrow table.name)).bind
        (.execute storeSchema _ hinsert)
    rw [List.append_cons] at hwell ⊢
    exact hfirst.bind (ih hwell hrows)

def filled (names : List String) (rows db : Database) : Database :=
  fun name => if name ∈ names then rows name else db name

theorem update_filled (names : List String) (rows db : Database) (name : String) :
    Function.update (filled names rows db) name (rows name) = filled (names ++ [name]) rows db := by
  funext other
  by_cases h : other = name
  · subst h
    rw [Function.update_self, filled, if_pos (by simp)]
  · rw [Function.update_of_ne h, filled, filled]
    simp only [List.mem_append, List.mem_singleton, h, or_false]

theorem filled_nil (rows db : Database) : filled [] rows db = db := by
  funext name
  exact if_neg List.not_mem_nil

theorem filled_filled (names : List String) (rows rows' db : Database) :
    filled names rows (filled names rows' db) = filled names rows db := by
  funext name
  unfold filled
  split <;> rfl

theorem fill_tables {tables : List (String × List String)}
    {work : String × List String → SqlM BackupError PUnit} (rows db : Database)
    (htables : tables.Perm backupTables)
    (hstep : ∀ table ∈ storeSchema, ∀ names, table.name ∉ names →
      Sql.Does (work (table.name, table.columnNames))
        { tables := filled names rows db, deferred := true } ⟨⟩
        { tables := Function.update (filled names rows db) table.name (rows table.name),
          deferred := true }) :
    Sql.Does (tables.forM work) { tables := db, deferred := true } ⟨⟩
      { tables := filled (storeSchema.map Sql.Table.name) rows db, deferred := true } := by
  have hnames : (tables.map Prod.fst).Perm (storeSchema.map Sql.Table.name) := htables.map Prod.fst
  have hloop := Sql.Does.for_m tables work
    (fun done => { tables := filled (done.map Prod.fst) rows db, deferred := true })
    fun done item rest hitems => ?_
  · have hend : filled (tables.map Prod.fst) rows db =
        filled (storeSchema.map Sql.Table.name) rows db := by
      funext name
      exact if_congr hnames.mem_iff rfl rfl
    rw [List.map_nil, filled_nil, hend] at hloop
    exact hloop
  · have hmem : item ∈ backupTables := htables.mem_iff.mp (by rw [hitems]; simp)
    obtain ⟨table, htable, rfl⟩ := List.mem_map.mp (backup_tables_eq ▸ hmem)
    have hnew : table.name ∉ done.map Prod.fst := by
      have hnodup := hnames.nodup_iff.mpr nodup_tables
      rw [hitems, List.map_append, List.map_cons] at hnodup
      intro hdone
      exact (List.nodup_append.mp hnodup).2.2 _ hdone _ List.mem_cons_self rfl
    rw [List.map_append, List.map_singleton, ← update_filled]
    exact hstep table htable _ hnew

theorem replace_tables {db : Database} (h : Holdable engine db) (target : Database) :
    Sql.Does (replaceTables engine codec (insertAll (tablesJson engine db) []))
      { tables := target } ()
      { tables := filled (storeSchema.map Sql.Table.name)
          (fun name => engine.scan name (db name)) target,
        deferred := true } := by
  rw [← filled_filled (storeSchema.map Sql.Table.name) _ (fun _ => []) target]
  refine Sql.Does.defer_foreign_keys.bind (Sql.Does.bind (fill_tables (fun _ => []) target
    backupTables.reverse_perm fun table htable names _ => ?_) ?_)
  · refine .execute storeSchema _ ?_
    unfold deleteFrom
    rw [find_table htable]
  refine fill_tables _ _ (.refl _) fun table htable names hnew => ?_
  have hlookup : (insertAll (tablesJson engine db) []).lookup table.name =
      some (.array ((scanned engine db table).map (rowJson table.columnNames))) := by
    have hkeys : ((tablesJson engine db).map Prod.fst).Nodup := by
      rw [tablesJson, List.map_map]
      exact nodup_tables
    rw [lookup_insert_all hkeys, tablesJson, lookup_map_of_nodup nodup_tables htable]
    rfl
  generalize hbefore : filled names (fun name => engine.scan name (db name))
    (filled (storeSchema.map Sql.Table.name) (fun _ => []) target) = before
  have hempty : Function.update before table.name [] = before := by
    have hnone : before table.name = [] := by
      rw [← hbefore, filled, if_neg hnew, filled, if_pos (List.mem_map_of_mem htable)]
    rw [← hnone]
    exact Function.update_eq_self ..
  have hperm : (scanned engine db table).Perm (db table.name) := engine.scan_perm ..
  have himport : Sql.Does (importTable engine codec table.name table.columnNames
      ((scanned engine db table).map (rowJson table.columnNames)))
      { tables := Function.update before table.name [], deferred := true } ()
      { tables := Function.update before table.name (scanned engine db table), deferred := true } :=
    import_rows htable ((h.valid.tables table htable).perm hperm) fun row hrow =>
      (h.mem_scanned htable hrow).2
  rw [hempty] at himport
  dsimp only
  rw [hlookup]
  exact himport

/-! ## Backup and restore -/

def Codec.Keeps (codec : Codec) (document : SerdeJson.Value) : Prop :=
  ∃ json archive, codec.toVec document = .ok json ∧ codec.encodeAll json = .ok archive ∧
    codec.decodeAll archive = .ok json ∧ codec.fromSlice json = .ok document

theorem import_table_confined (table : String) (columns : List String)
    (rows : List SerdeJson.Value) : Confined (importTable engine codec table columns rows) :=
  .for_m fun _ _ => (Confined.of_except _).bind fun _ => .execute storeSchema _ _

theorem replace_tables_confined (tables : List (String × SerdeJson.Value)) :
    Confined (replaceTables engine codec tables) := by
  refine Confined.defer_foreign_keys.bind fun _ => ?_
  refine (Confined.for_m fun _ _ => .execute storeSchema _ _).bind fun _ => ?_
  refine .for_m fun (table, columns) _ => ?_
  dsimp only
  split
  · exact .fail _
  · exact import_table_confined table columns _

theorem of_except_error {ε α β : Type} {result : Except ε α} {next : α → SqlM ε β}
    {conn conn' : Connection} {error : ε}
    (h : (SqlM.ofExcept result >>= next).run conn = (.error error, conn')) :
    conn' = conn ∨ ∃ value, (next value).run conn = (.error error, conn') := by
  cases result with
  | ok value => exact .inr ⟨value, h⟩
  | error _ => exact .inl (congrArg Prod.snd h).symm

theorem restore_error {archive : List UInt8} {target : Database} {error : BackupError}
    {conn : Connection}
    (h : (restoreBackup engine codec archive).run ⟨target, none⟩ = (.error error, conn)) :
    conn = ⟨target, none⟩ := by
  obtain hconn | ⟨json, h⟩ := of_except_error h
  · exact hconn
  obtain hconn | ⟨document, h⟩ := of_except_error h
  · exact hconn
  obtain hconn | ⟨tables, h⟩ := of_except_error h
  · exact hconn
  exact transaction_error (replace_tables_confined tables) h

theorem Holdable.write_backup {db : Database} (h : Holdable engine db) {now : String}
    {json archive : List UInt8} (hjson : codec.toVec (backupDocument engine now db) = .ok json)
    (harchive : codec.encodeAll json = .ok archive) :
    (writeBackup engine codec now).run ⟨db, none⟩ = (.ok archive, ⟨db, none⟩) := by
  have htables : (transaction storeSchema .sqlite (exportTables engine backupTables)).run
      ⟨db, none⟩ = (.ok (tablesJson engine db), ⟨db, none⟩) :=
    transaction_ok (h.export_tables fun _ htable => htable) h.valid.foreignKeys
  unfold writeBackup
  rw [SqlM.bind_ok htables]
  show (SqlM.ofExcept ((codec.toVec (backupDocument engine now db)).mapError BackupError.json) >>=
    fun json => SqlM.ofExcept ((codec.encodeAll json).mapError BackupError.io)).run _ = _
  rw [hjson]
  show (SqlM.ofExcept ((codec.encodeAll json).mapError BackupError.io)).run _ = _
  rw [harchive]
  rfl

theorem Holdable.restore_backup {db : Database} (h : Holdable engine db) {now : String}
    {json archive : List UInt8} (harchive : codec.decodeAll archive = .ok json)
    (hjson : codec.fromSlice json = .ok (backupDocument engine now db)) (target : Database) :
    (restoreBackup engine codec archive).run ⟨target, none⟩ =
      (.ok (), ⟨filled (storeSchema.map Sql.Table.name)
        (fun name => engine.scan name (db name)) target, none⟩) := by
  have hkeys : storeSchema.ForeignKeysHold (filled (storeSchema.map Sql.Table.name)
      (fun name => engine.scan name (db name)) target) := by
    refine h.valid.foreignKeys.perm fun table htable => ?_
    rw [filled, if_pos (List.mem_map_of_mem htable)]
    exact engine.scan_perm ..
  unfold restoreBackup
  rw [harchive]
  show (SqlM.ofExcept ((codec.fromSlice json).mapError BackupError.json) >>= _).run _ = _
  rw [hjson]
  show (SqlM.ofExcept (documentTables (backupDocument engine now db)) >>= _).run _ = _
  rw [document_tables]
  exact transaction_ok (replace_tables h target) hkeys

/-- A backup of a valid state whose cells are `NULL`, integers or valid text succeeds, and its
restore into any database gives each table the rows of that state. A restore that fails changes
nothing, whatever it was given. -/
theorem backup_restores (engine : Engine) (codec : Codec) (now : String) (db : Database)
    (h : Holdable engine db) (hcodec : Canonical (backupDocument engine now db) →
      codec.Keeps (backupDocument engine now db)) :
    (∃ archive, (writeBackup engine codec now).run ⟨db, none⟩ = (.ok archive, ⟨db, none⟩) ∧
      ∀ target, ∃ restored,
        (restoreBackup engine codec archive).run ⟨target, none⟩ = (.ok (), ⟨restored, none⟩) ∧
          ∀ table ∈ storeSchema, (restored table.name).Perm (db table.name)) ∧
    ∀ target archive error conn,
      (restoreBackup engine codec archive).run ⟨target, none⟩ = (.error error, conn) →
        conn = ⟨target, none⟩ := by
  obtain ⟨json, archive, hto, hencode, hdecode, hfrom⟩ := hcodec (h.canonical_document now)
  refine ⟨⟨archive, h.write_backup hto hencode, fun target => ?_⟩,
    fun _ _ _ _ => restore_error⟩
  refine ⟨_, h.restore_backup hdecode hfrom target, fun table htable => ?_⟩
  rw [filled, if_pos (List.mem_map_of_mem htable)]
  exact engine.scan_perm ..

/-! ### A store with one user -/

def plainEngine : Engine where
  applyAffinity _ value := value
  nextRowid _ := none
  scan _ rows := rows
  scan_perm _ rows := .refl rows

def codecFor (document : SerdeJson.Value) : Codec where
  toVec _ := .ok []
  fromSlice _ := .ok document
  encodeAll := .ok
  decodeAll := .ok
  display _ := ""

def oneUser : Database := fun table =>
  if table = "users" then
    [[.integer 1, .text "alice".toUTF8, .text "Alice".toUTF8, .text "2026-01-01T00:00:00Z".toUTF8]]
  else []

theorem one_user_well_formed : usersTable.WellFormed plainEngine (oneUser "users") where
  cells row hrow := by
    cases List.mem_singleton.mp hrow
    have htext (column : String) (bytes : ByteArray) (h : some column ≠ some "id") :
        usersTable.Fits plainEngine (textColumn column) (.text bytes) :=
      ⟨rfl, fun heq => absurd heq h, fun _ => nofun⟩
    refine .cons ⟨rfl, fun _ => ⟨1, rfl⟩, nofun⟩ (.cons (htext _ _ (by decide))
      (.cons (htext _ _ (by decide)) (.cons (htext _ _ (by decide)) .nil)))
  unique _ _ := List.pairwise_singleton ..

theorem one_user_holdable : Holdable plainEngine oneUser := by
  have hother {table : Sql.Table} (htable : table ∈ storeSchema) :
      table = usersTable ∨ oneUser table.name = [] := by
    by_cases hname : table.name = "users"
    · refine .inl (Option.some.inj ((find_table htable).symm.trans ?_))
      rw [hname]
      exact find_table (List.mem_cons_self : usersTable ∈ storeSchema)
    · exact .inr (if_neg hname)
  refine ⟨⟨fun table htable => ?_, fun table htable => ?_⟩, fun table htable row hrow => ?_⟩ <;>
    obtain rfl | hempty := hother htable
  · exact one_user_well_formed
  · rw [hempty]
    exact ⟨nofun, fun _ _ => .nil⟩
  · exact nofun
  · intro key _ row hrow
    rw [hempty] at hrow
    cases hrow
  · cases List.mem_singleton.mp hrow
    intro value hvalue
    simp only [List.mem_cons, List.not_mem_nil, or_false] at hvalue
    obtain rfl | rfl | rfl | rfl := hvalue
    · trivial
    all_goals exact String.isValidUTF8 _
  · rw [hempty] at hrow
    cases hrow

theorem backup_restores_one_user :
    ∃ archive, ∀ target, ∃ restored,
      (restoreBackup plainEngine (codecFor (backupDocument plainEngine "" oneUser)) archive).run
          ⟨target, none⟩ = (.ok (), ⟨restored, none⟩) ∧
        (restored "users").Perm (oneUser "users") := by
  obtain ⟨⟨archive, _, hrestored⟩, _⟩ := backup_restores plainEngine
    (codecFor (backupDocument plainEngine "" oneUser)) "" oneUser one_user_holdable
    fun _ => ⟨[], [], rfl, rfl, rfl, rfl⟩
  refine ⟨archive, fun target => ?_⟩
  obtain ⟨restored, hrun, hrows⟩ := hrestored target
  exact ⟨restored, hrun, hrows usersTable List.mem_cons_self⟩

end Crabscale.Control.Backup
