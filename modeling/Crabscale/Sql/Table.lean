import Crabscale.Rust.Collections

/-!
# SQL tables

A table has named columns, an optional row id column, unique groups of columns, and foreign keys.
The rows of a well-formed table can be inserted one after another, in any order, and stay as they
are (`WellFormed.insert`).
-/

namespace Crabscale.Sql

/-- Bytes are compared as the core library compares them. -/
local instance byteArrayDecidableEq : DecidableEq ByteArray := ByteArray.instDecidableEq

inductive Value where
  | null
  | integer (value : Int64)
  | real (bits : UInt64)
  | text (bytes : ByteArray)
  | blob (bytes : ByteArray)
  deriving DecidableEq

/-- The type that a column prefers. -/
inductive Affinity where
  | integer
  | text

structure Column where
  name : String
  affinity : Affinity
  notNull : Bool := false
  default : Value := .null

/-- A column that refers to a column of another table. -/
structure ForeignKey where
  column : String
  parent : String
  parentColumn : String

/-- A table, with the column that is the row id and the columns that are unique together. -/
structure Table where
  name : String
  columns : List Column
  rowid : Option String := none
  uniques : List (List String) := []
  foreignKeys : List ForeignKey := []

abbrev Row : Type := List Value

abbrev Database : Type := String → List Row

/-- Why a statement fails. -/
inductive SqlError where
  | nestedTransaction
  | noTransaction
  | noSuchTable (table : String)
  | datatypeMismatch
  | full
  | notNull (table column : String)
  | unique (table : String) (columns : List String)
  | foreignKey
  deriving DecidableEq

/-- The parts of the engine that a schema does not determine: the value that is stored for a bound
one, the next row id, and the order in which the rows of a table are read. -/
structure Engine where
  applyAffinity : Affinity → Value → Value
  nextRowid : List Row → Option Int64
  scan : String → List Row → List Row
  scan_perm : ∀ table rows, (scan table rows).Perm rows

namespace Table

variable (table : Table)

def columnNames : List String := table.columns.map Column.name

def cell (row : Row) (column : String) : Value :=
  ((table.columnNames.zip row).lookup column).getD .null

/-- The groups of columns that are unique: the row id, and those that are declared. -/
def uniqueKeys : List (List String) := (table.rowid.map ([·])).toList ++ table.uniques

/-- Two rows have the same value in each of the columns, and none is `NULL`. -/
def Clash (key : List String) (a b : Row) : Prop :=
  ∀ column ∈ key, table.cell a column = table.cell b column ∧ table.cell a column ≠ .null

instance (key : List String) (a b : Row) : Decidable (table.Clash key a b) :=
  inferInstanceAs (Decidable (∀ column ∈ key, _))

def select (engine : Engine) (columns : List String) (rows : List Row) : List Row :=
  (engine.scan table.name rows).map fun row => columns.map (table.cell row)

def store (engine : Engine) (rows : List Row) (column : Column) (value : Value) :
    Except SqlError Value :=
  let value := engine.applyAffinity column.affinity value
  if some column.name = table.rowid then
    match value with
    | .integer _ => .ok value
    | .null => (engine.nextRowid rows).elim (.error .full) fun id => .ok (.integer id)
    | _ => .error .datatypeMismatch
  else if column.notNull && value = .null then .error (.notNull table.name column.name)
  else .ok value

def insert (engine : Engine) (columns : List String) (values : List Value) (rows : List Row) :
    Except SqlError (List Row) := do
  let row ← table.columns.mapM fun column =>
    table.store engine rows column (((columns.zip values).lookup column.name).getD column.default)
  match table.uniqueKeys.find? fun key => rows.any (table.Clash key row ·) with
  | some key => throw (.unique table.name key)
  | none => return rows ++ [row]

/-! ## Well-formed tables -/

structure Fits (engine : Engine) (column : Column) (value : Value) : Prop where
  affinity : engine.applyAffinity column.affinity value = value
  rowid : some column.name = table.rowid → ∃ id, value = .integer id
  notNull : column.notNull = true → value ≠ .null

structure WellFormed (engine : Engine) (rows : List Row) : Prop where
  cells : ∀ row ∈ rows, List.Forall₂ (table.Fits engine) table.columns row
  unique : ∀ key ∈ table.uniqueKeys, rows.Pairwise fun a b => ¬table.Clash key a b

variable {table} {engine : Engine}

theorem store_fits {column : Column} {value : Value} (h : table.Fits engine column value)
    (rows : List Row) : table.store engine rows column value = .ok value := by
  unfold store
  rw [h.affinity]
  dsimp only
  split
  case isTrue hrowid =>
    obtain ⟨id, rfl⟩ := h.rowid hrowid
    rfl
  case isFalse =>
    split
    case isTrue hnull =>
      obtain ⟨hnot, hvalue⟩ := (Bool.and_eq_true ..).mp hnull
      exact (h.notNull hnot (of_decide_eq_true hvalue)).elim
    case isFalse => rfl

theorem Clash.symm {key : List String} {a b : Row} (h : table.Clash key a b) :
    table.Clash key b a :=
  fun column hcolumn =>
    ⟨(h column hcolumn).1.symm, (h column hcolumn).1 ▸ (h column hcolumn).2⟩

theorem lookup_zip {ν : Type} {names : List String} (values : List ν) (hnodup : names.Nodup)
    (hlen : names.length = values.length) :
    names.map (fun name => (names.zip values).lookup name) = values.map some := by
  induction names generalizing values with
  | nil =>
    cases values with
    | nil => rfl
    | cons value values => cases hlen
  | cons name names ih =>
    cases values with
    | nil => cases hlen
    | cons value values =>
      obtain ⟨hnew, hnodup⟩ := List.nodup_cons.mp hnodup
      have hrest := ih values hnodup (Nat.succ.inj hlen)
      rw [List.map_cons, List.map_cons, List.zip_cons_cons]
      refine List.cons_eq_cons.mpr ⟨?_,
        Eq.trans (List.map_congr_left fun other hother => ?_) hrest⟩
      · rw [Rust.lookup_cons_eq, if_pos rfl]
      · have hne : other ≠ name := fun heq => hnew (heq ▸ hother)
        rw [Rust.lookup_cons_eq, if_neg hne]

theorem map_cell {row : Row} (hnodup : table.columnNames.Nodup)
    (hlen : table.columns.length = row.length) : table.columnNames.map (table.cell row) = row := by
  have hlookup : table.columnNames.map (fun name => (table.columnNames.zip row).lookup name) =
      row.map some := lookup_zip row hnodup (by rw [columnNames, List.length_map, hlen])
  calc table.columnNames.map (table.cell row)
      = (table.columnNames.map fun name => (table.columnNames.zip row).lookup name).map
          (·.getD .null) := by rw [List.map_map]; rfl
    _ = row := by rw [hlookup, List.map_map]; exact List.map_id row

theorem map_m_store {columns : List Column} {row : Row} {bound : Column → Option Value}
    (hfits : List.Forall₂ (table.Fits engine) columns row)
    (hbound : columns.map bound = row.map some) (rows : List Row) :
    (columns.mapM fun column =>
      table.store engine rows column ((bound column).getD column.default)) = .ok row := by
  induction hfits with
  | nil => rfl
  | cons hfit _ ih =>
    obtain ⟨hfirst, hrest⟩ := List.cons_eq_cons.mp hbound
    rw [List.mapM_cons, hfirst, Option.getD_some, store_fits hfit, ih hrest]
    rfl

theorem insert_fits (hnodup : table.columnNames.Nodup) {rows : List Row} {row : Row}
    (hfits : List.Forall₂ (table.Fits engine) table.columns row)
    (hunique : ∀ key ∈ table.uniqueKeys, ∀ other ∈ rows, ¬table.Clash key row other) :
    table.insert engine table.columnNames row rows = .ok (rows ++ [row]) := by
  have hlookup : table.columns.map (fun column => (table.columnNames.zip row).lookup column.name) =
      row.map some := by
    have hzip := lookup_zip row hnodup (by rw [columnNames, List.length_map, hfits.length_eq])
    calc table.columns.map (fun column => (table.columnNames.zip row).lookup column.name)
        = (table.columns.map Column.name).map
          (fun name => (table.columnNames.zip row).lookup name) := by
          rw [List.map_map]
          rfl
      _ = row.map some := hzip
  have hclash : table.uniqueKeys.find? (fun key => rows.any (table.Clash key row ·)) = none := by
    refine List.find?_eq_none.mpr fun key hkey hany => ?_
    obtain ⟨other, hother, hclash⟩ := List.any_eq_true.mp hany
    exact hunique key hkey other hother (of_decide_eq_true hclash)
  unfold insert
  rw [map_m_store hfits hlookup rows]
  simp only [hclash, bind, Except.bind, pure, Except.pure]

theorem WellFormed.insert (hnodup : table.columnNames.Nodup) {before rest : List Row} {row : Row}
    (h : table.WellFormed engine (before ++ row :: rest)) :
    table.insert engine table.columnNames row before = .ok (before ++ [row]) := by
  refine insert_fits hnodup (h.cells row (by simp)) fun key hkey other hother hclash => ?_
  exact (List.pairwise_append.mp (h.unique key hkey)).2.2 other hother row List.mem_cons_self
    hclash.symm

end Table

/-! ## Databases -/

/-- The tables of a database. -/
abbrev Schema : Type := List Table

def Table.Refers (schema : Schema) (db : Database) (table : Table) : Prop :=
  ∀ key ∈ table.foreignKeys, ∀ row ∈ db table.name, table.cell row key.column = .null ∨
    ∃ parent ∈ schema, parent.name = key.parent ∧
      ∃ other ∈ db parent.name, parent.cell other key.parentColumn = table.cell row key.column

instance (schema : Schema) (db : Database) (table : Table) : Decidable (table.Refers schema db) :=
  inferInstanceAs (Decidable (∀ key ∈ table.foreignKeys, _))

def Schema.ForeignKeysHold (schema : Schema) (db : Database) : Prop :=
  ∀ table ∈ schema, table.Refers schema db

instance (schema : Schema) (db : Database) : Decidable (schema.ForeignKeysHold db) :=
  inferInstanceAs (Decidable (∀ table ∈ schema, _))

/-- A state of a database: its tables are well-formed, and its foreign keys hold. -/
structure Schema.Valid (schema : Schema) (engine : Engine) (db : Database) : Prop where
  tables : ∀ table ∈ schema, table.WellFormed engine (db table.name)
  foreignKeys : schema.ForeignKeysHold db

theorem Table.WellFormed.perm {table : Table} {engine : Engine} {rows rows' : List Row}
    (h : table.WellFormed engine rows) (hperm : rows'.Perm rows) :
    table.WellFormed engine rows' where
  cells row hrow := h.cells row (hperm.mem_iff.mp hrow)
  unique key hkey := ((h.unique key hkey).perm hperm.symm
    fun hnot hclash => hnot hclash.symm)

theorem Schema.ForeignKeysHold.perm {schema : Schema} {db db' : Database}
    (h : schema.ForeignKeysHold db)
    (hperm : ∀ table ∈ schema, (db' table.name).Perm (db table.name)) :
    schema.ForeignKeysHold db' := by
  intro table htable key hkey row hrow
  obtain hnull | ⟨parent, hparent, hname, other, hother, hcell⟩ :=
    h table htable key hkey row ((hperm table htable).mem_iff.mp hrow)
  · exact .inl hnull
  · exact .inr ⟨parent, hparent, hname, other, (hperm parent hparent).mem_iff.mpr hother, hcell⟩

end Crabscale.Sql
