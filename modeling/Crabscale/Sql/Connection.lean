import Crabscale.Sql.Table

/-!
# Transactions

A connection holds the committed state and, while a transaction is open, the state of that
transaction. `transaction` commits when its body succeeds, and rolls back when the body or the
commit fails. A body that only uses statements is `Confined` to the transaction, so a failure leaves
the database alone (`transaction_error`).
-/

namespace Crabscale.Sql

structure Transaction where
  tables : Database
  deferred : Bool := false

structure Connection where
  committed : Database
  pending : Option Transaction := none

/-- Work on a connection, which may fail. What was done before a failure stays done. -/
structure SqlM (ε α : Type) where
  run : Connection → Except ε α × Connection

variable {ε α β : Type}

variable {next : α → SqlM ε β}

namespace SqlM

instance : Monad (SqlM ε) where
  pure value := ⟨fun conn => (.ok value, conn)⟩
  bind work next := ⟨fun conn =>
    match work.run conn with
    | (.ok value, conn) => (next value).run conn
    | (.error error, conn) => (.error error, conn)⟩

def fail (error : ε) : SqlM ε α := ⟨fun conn => (.error error, conn)⟩

def ofExcept : Except ε α → SqlM ε α
  | .ok value => pure value
  | .error error => fail error

theorem bind_ok {work : SqlM ε α} {conn conn' : Connection} {value : α}
    (h : work.run conn = (.ok value, conn')) : (work >>= next).run conn =
    (next value).run conn' := by
  show (match work.run conn with
    | (.ok value, conn) => (next value).run conn
    | (.error error, conn) => (.error error, conn)) = _
  rw [h]

theorem bind_error {work : SqlM ε α} {conn conn' : Connection} {error : ε}
    (h : work.run conn = (.error error, conn')) : (work >>= next).run conn =
    (.error error, conn') := by
  show (match work.run conn with
    | (.ok value, conn) => (next value).run conn
    | (.error error, conn) => (.error error, conn)) = _
  rw [h]

end SqlM

section Statements

variable (schema : Schema) (wrap : SqlError → ε)

def query (read : Database → α) : SqlM ε α := ⟨fun conn =>
  (.ok (read ((conn.pending.map Transaction.tables).getD conn.committed)), conn)⟩

/-- Change the current state. Foreign keys are checked after the statement, unless that was put off.
Outside of a transaction the change is committed at once. -/
def execute (change : Database → Except SqlError Database) : SqlM ε Unit := ⟨fun conn =>
  match conn.pending with
  | some tx =>
    match change tx.tables with
    | .error error => (.error (wrap error), conn)
    | .ok tables =>
      if tx.deferred ∨ schema.ForeignKeysHold tables then
        (.ok (), { conn with pending := some { tx with tables } })
      else (.error (wrap .foreignKey), conn)
  | none =>
    match change conn.committed with
    | .error error => (.error (wrap error), conn)
    | .ok tables =>
      if schema.ForeignKeysHold tables then (.ok (), { conn with committed := tables })
      else (.error (wrap .foreignKey), conn)⟩

def deferForeignKeys : SqlM ε Unit := ⟨fun conn =>
  (.ok (), { conn with pending := conn.pending.map fun tx => { tx with deferred := true } })⟩

def commit : SqlM ε Unit := ⟨fun conn =>
  match conn.pending with
  | none => (.error (wrap .noTransaction), conn)
  | some tx =>
    if schema.ForeignKeysHold tx.tables then (.ok (), { committed := tx.tables })
    else (.error (wrap .foreignKey), conn)⟩

/-- Run a body in a transaction of its own. When the guard of the transaction goes, what is not
committed is rolled back. -/
def transaction (body : SqlM ε α) : SqlM ε α := ⟨fun conn =>
  if conn.pending.isSome then (.error (wrap .nestedTransaction), conn)
  else
    let work : SqlM ε α := do
      let value ← body
      commit schema wrap
      return value
    let (result, conn) := work.run { conn with pending := some { tables := conn.committed } }
    (result, { conn with pending := none })⟩

end Statements

/-! ## Confinement -/

/-- In a transaction, the work leaves the committed state alone and the transaction open. -/
def Confined (work : SqlM ε α) : Prop :=
  ∀ committed tx, ∃ result tx', work.run ⟨committed, some tx⟩ = (result, ⟨committed, some tx'⟩)

namespace Confined

theorem pure (value : α) : Confined (pure value : SqlM ε α) := fun _ tx => ⟨.ok value, tx, rfl⟩

theorem fail (error : ε) : Confined (SqlM.fail error : SqlM ε α) :=
  fun _ tx => ⟨.error error, tx, rfl⟩

theorem of_except (result : Except ε α) : Confined (SqlM.ofExcept result) := by
  cases result with
  | ok value => exact pure value
  | error error => exact fail error

theorem bind {work : SqlM ε α} (hwork : Confined work)
    (hnext : ∀ value, Confined (next value)) : Confined (work >>= next) := by
  intro committed tx
  obtain ⟨result, tx', hresult⟩ := hwork committed tx
  cases result with
  | ok value =>
    rw [SqlM.bind_ok hresult]
    exact hnext value committed tx'
  | error error => exact ⟨.error error, tx', SqlM.bind_error hresult⟩

theorem for_m {items : List β} {work : β → SqlM ε PUnit}
    (h : ∀ item ∈ items, Confined (work item)) : Confined (items.forM work) := by
  induction items with
  | nil => exact pure _
  | cons item items ih =>
    obtain ⟨hitem, hitems⟩ := List.forall_mem_cons.mp h
    exact hitem.bind fun _ => ih hitems

theorem defer_foreign_keys : Confined (deferForeignKeys : SqlM ε Unit) :=
  fun _ tx => ⟨.ok (), { tx with deferred := true }, rfl⟩

theorem execute (schema : Schema) (wrap : SqlError → ε)
    (change : Database → Except SqlError Database) : Confined (execute schema wrap change) := by
  intro committed tx
  unfold Sql.execute
  dsimp only
  split
  · exact ⟨_, _, rfl⟩
  · split <;> exact ⟨_, _, rfl⟩

end Confined

section Ends

variable {schema : Schema} {wrap : SqlError → ε} {body : SqlM ε α} {db : Database}
  {tx : Transaction}

theorem transaction_failed {error : ε}
    (hbody : body.run ⟨db, some { tables := db }⟩ = (.error error, ⟨db, some tx⟩)) :
    (transaction schema wrap body).run ⟨db, none⟩ = (.error error, ⟨db, none⟩) := by
  have hwork : (do let value ← body; commit schema wrap; return value : SqlM ε α).run
      ⟨db, some { tables := db }⟩ = (.error error, ⟨db, some tx⟩) := SqlM.bind_error hbody
  simp only [transaction, hwork]
  rfl

/-- A transaction whose body succeeds is committed when the foreign keys hold, and else it is rolled
back. -/
theorem transaction_ended {value : α}
    (hbody : body.run ⟨db, some { tables := db }⟩ = (.ok value, ⟨db, some tx⟩)) :
    (transaction schema wrap body).run ⟨db, none⟩ =
      if schema.ForeignKeysHold tx.tables then (.ok value, ⟨tx.tables, none⟩)
      else (.error (wrap .foreignKey), ⟨db, none⟩) := by
  have hwork : (do let value ← body; commit schema wrap; return value : SqlM ε α).run
      ⟨db, some { tables := db }⟩ =
        (do commit schema wrap; return value : SqlM ε α).run ⟨db, some tx⟩ := SqlM.bind_ok hbody
  simp only [transaction, hwork]
  by_cases hkeys : schema.ForeignKeysHold tx.tables
  · have hcommit : (commit schema wrap).run ⟨db, some tx⟩ = (.ok (), ⟨tx.tables, none⟩) :=
      if_pos hkeys
    rw [SqlM.bind_ok hcommit, if_pos hkeys]
    rfl
  · have hcommit : (commit schema wrap).run ⟨db, some tx⟩ =
        (.error (wrap .foreignKey), ⟨db, some tx⟩) := if_neg hkeys
    rw [SqlM.bind_error hcommit, if_neg hkeys]
    rfl

theorem transaction_error (hbody : Confined body) {error : ε} {conn : Connection}
    (h : (transaction schema wrap body).run ⟨db, none⟩ = (.error error, conn)) :
    conn = ⟨db, none⟩ := by
  obtain ⟨result, tx, hresult⟩ := hbody db { tables := db }
  cases result with
  | error error =>
    rw [transaction_failed hresult] at h
    cases h
    rfl
  | ok value =>
    rw [transaction_ended hresult] at h
    split at h <;> cases h
    rfl

end Ends

/-! ## Success -/

def Does (work : SqlM ε α) (tx : Transaction) (value : α) (tx' : Transaction) : Prop :=
  ∀ committed, work.run ⟨committed, some tx⟩ = (.ok value, ⟨committed, some tx'⟩)

namespace Does

variable {tx tx' tx'' : Transaction}

theorem pure (value : α) : Does (pure value : SqlM ε α) tx value tx := fun _ => rfl

theorem bind {work : SqlM ε α} {value : α} {last : β}
    (hwork : Does work tx value tx') (hnext : Does (next value) tx' last tx'') :
    Does (work >>= next) tx last tx'' :=
  fun committed => (SqlM.bind_ok (hwork committed)).trans (hnext committed)

theorem of_except {result : Except ε α} {value : α} (h : result = .ok value) :
    Does (SqlM.ofExcept result) tx value tx := by
  subst h
  exact pure value

theorem for_m (items : List β) (work : β → SqlM ε PUnit) (state : List β → Transaction)
    (hstep : ∀ done item rest, items = done ++ item :: rest →
      Does (work item) (state done) ⟨⟩ (state (done ++ [item]))) :
    Does (items.forM work) (state []) ⟨⟩ (state items) := by
  have hmore (done rest : List β) (h : items = done ++ rest) :
      Does (rest.forM work) (state done) ⟨⟩ (state items) := by
    induction rest generalizing done with
    | nil =>
      rw [h, List.append_nil]
      exact pure _
    | cons item rest ih =>
      exact (hstep done item rest h).bind (ih (done ++ [item]) (by rw [h, List.append_cons]))
  exact hmore [] items rfl

theorem query (read : Database → α) : Does (query read : SqlM ε α) tx (read tx.tables) tx :=
  fun _ => rfl

theorem defer_foreign_keys :
    Does (deferForeignKeys : SqlM ε Unit) tx () { tx with deferred := true } :=
  fun _ => rfl

theorem execute (schema : Schema) (wrap : SqlError → ε)
    {change : Database → Except SqlError Database} {tables tables' : Database}
    (h : change tables = .ok tables') :
    Does (execute schema wrap change) { tables, deferred := true } ()
      { tables := tables', deferred := true } := by
  intro committed
  unfold Sql.execute
  dsimp only
  rw [h]
  exact if_pos (.inl rfl)

end Does

theorem transaction_ok {schema : Schema} {wrap : SqlError → ε} {body : SqlM ε α} {db : Database}
    {value : α} {tx : Transaction} (hbody : Does body { tables := db } value tx)
    (hkeys : schema.ForeignKeysHold tx.tables) :
    (transaction schema wrap body).run ⟨db, none⟩ = (.ok value, ⟨tx.tables, none⟩) := by
  rw [transaction_ended (hbody db)]
  exact if_pos hkeys

end Crabscale.Sql
