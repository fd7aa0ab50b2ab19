import Crabscale.Control.World

/-!
# What each store function does to the rows

One lemma for each function that writes: the tables it leaves behind when it succeeds, and that a
function of one statement leaves the database alone when it fails. `upsertNode` runs two statements.
`Call.same_but` is the frame of every call: it changes at most one table.
-/

namespace Crabscale.Control

open Rust Proto

variable {t : Tables} {db : Db} {α : Type} {entry : PendingRegistration} {row : Node}

namespace Db

/-! ## Statements -/

theorem commit_ok (h : commit t = .ok db) : db.toTables = t := by
  unfold commit at h
  split at h <;> cases h
  rfl

theorem commit_of_valid (h : t.Valid) : commit t = .ok { t with valid := h } := by
  rw [commit, dif_pos h]

theorem statement_cases (db : Db) (t : Tables) (answer : α) :
    (db.statement t answer).2 = db ∨ (db.statement t answer).2.toTables = t := by
  unfold statement
  cases h : commit t with
  | ok db' => exact .inr (commit_ok h)
  | error error => exact .inl rfl

theorem statement_of_valid (db : Db) (h : t.Valid) (answer : α) :
    db.statement t answer = (.ok answer, { t with valid := h }) := by
  rw [statement, commit_of_valid h]

theorem statement_ok {db' : Db} {answer result : α}
    (h : db.statement t answer = (.ok result, db')) : db'.toTables = t ∧ result = answer := by
  unfold statement at h
  cases hcommit : commit t with
  | ok committed =>
    rw [hcommit] at h
    cases h
    exact ⟨commit_ok hcommit, rfl⟩
  | error error =>
    rw [hcommit] at h
    cases h

theorem statement_error {db' : Db} {answer : α} {error : StoreError}
    (h : db.statement t answer = (.error error, db')) : db' = db := by
  unfold statement at h
  cases hcommit : commit t with
  | ok committed =>
    rw [hcommit] at h
    cases h
  | error error =>
    rw [hcommit] at h
    cases h
    rfl

/-! ## Lookups -/

variable {db : Db}

theorem nodup_node_ids (db : Db) : (db.nodes.map Node.id).Nodup := by
  rw [List.nodup_iff_pairwise_ne, List.pairwise_map]
  exact db.valid.nodeIds.imp fun h => Nat.ne_of_lt h

variable {nodeKey : NodeKey} {node : Node}

theorem get_node_by_node_key_eq_some :
    db.getNodeByNodeKey nodeKey = some node ↔ node ∈ db.nodes ∧ node.nodeKey = nodeKey :=
  find?_eq_some_iff_of_nodup Node.nodeKey db.valid.nodeKeys

theorem get_node_by_node_key_eq_none :
    db.getNodeByNodeKey nodeKey = none ↔ ∀ node ∈ db.nodes, node.nodeKey ≠ nodeKey := by
  simp [getNodeByNodeKey]

theorem get_node_by_id_eq_some {id : Nat} :
    db.getNodeById id = some node ↔ node ∈ db.nodes ∧ node.id = id :=
  find?_eq_some_iff_of_nodup Node.id (nodup_node_ids db)

theorem get_user_is_some {id : Nat} : (db.getUser id).isSome ↔ id ∈ db.users.map User.id := by
  simp [getUser]

theorem get_login_is_some {id : Nat} : (db.getLogin id).isSome ↔ id ∈ db.logins.map Login.id := by
  simp [getLogin]

theorem get_pre_auth_key_is_some {keyPrefix : String} :
    (db.getPreAuthKey keyPrefix).isSome ↔ keyPrefix ∈ db.preAuthKeys.map PreAuthKey.keyPrefix := by
  simp [getPreAuthKey]

theorem get_pending_eq_some {authId : String} :
    db.getPending authId = some entry ↔
      entry.authId = authId ∧ ∃ row ∈ db.pending, row.entry = entry := by
  have hfind (row : PendingRow) := find?_eq_some_iff_of_nodup (a := row) (k := authId)
    (fun row => row.entry.authId) db.valid.pendingIds
  rw [getPending, Option.map_eq_some_iff]
  constructor
  · rintro ⟨row, hrow, rfl⟩
    exact ⟨((hfind row).mp hrow).2, row, ((hfind row).mp hrow).1, rfl⟩
  · rintro ⟨hid, row, hrow, rfl⟩
    exact ⟨row, (hfind row).mpr ⟨hrow, hid⟩, rfl⟩

theorem pending_ne_nil {authId : String}
    (h : db.getPending authId = some entry) : db.pending ≠ [] := by
  intro hnil
  simp [getPending, hnil] at h

theorem lt_next_rowid {ids : List Nat} {id : Nat} (h : id ∈ ids) : id < nextRowid ids := by
  induction ids with
  | nil => cases h
  | cons first ids ih =>
    unfold nextRowid at ih ⊢
    rw [List.foldr_cons]
    obtain rfl | htail := List.mem_cons.mp h
    · omega
    · have := ih htail
      omega

theorem next_rowid_not_mem (ids : List Nat) : nextRowid ids ∉ ids :=
  fun h => Nat.lt_irrefl _ (lt_next_rowid h)

/-! ## Node writes -/

theorem insert_or_update_existing (hrow : db.getNodeByNodeKey node.nodeKey = some row) :
    db.insertOrUpdateNode node = commit { db.toTables with
      nodes := db.nodes.map fun stored =>
        if stored.nodeKey = node.nodeKey then { node with id := stored.id } else stored } := by
  simp [insertOrUpdateNode, hrow]

theorem insert_or_update_new (hnew : db.getNodeByNodeKey node.nodeKey = none) :
    db.insertOrUpdateNode node = commit { db.toTables with
      nodes := db.nodes ++ [{ node with id := nextRowid (db.nodes.map Node.id) }]
      lastInsertRowid := nextRowid (db.nodes.map Node.id) } := by
  simp [insertOrUpdateNode, hnew]

theorem upsert_cases (db : Db) (node : Node) :
    (db.upsertNode node).2 = db ∨
      ∃ db₁, db.insertOrUpdateNode node = .ok db₁ ∧
        ((db.upsertNode node).2 = db₁ ∨
          ∃ id stableId, db₁.setStableId id stableId = .ok (db.upsertNode node).2) := by
  unfold upsertNode
  cases hfirst : db.insertOrUpdateNode node with
  | error error => exact .inl rfl
  | ok db₁ =>
    refine .inr ⟨db₁, rfl, ?_⟩
    dsimp only
    split
    · cases hsecond : db₁.setStableId _ _ with
      | error error => exact .inl rfl
      | ok db₂ => exact .inr ⟨_, _, hsecond⟩
    · exact .inl rfl

theorem nodes_set_stable_id {db' : Db} {id : Nat} {stableId : String}
    (h : db.setStableId id stableId = .ok db') :
    db'.nodes = db.nodes.map fun row => if row.id = id then { row with stableId } else row :=
  congrArg Tables.nodes (commit_ok h)

/-- A row after an upsert is a stored row, or the node in the place of the row with its key, or, if
there is none, the node under a new id; each up to its stable id. -/
theorem mem_upsert_cases (h : row ∈ (db.upsertNode node).2.nodes) :
    (∃ stored ∈ db.nodes, ∃ stableId, row = { stored with stableId }) ∨
      (∃ stored ∈ db.nodes, stored.nodeKey = node.nodeKey ∧
        ∃ stableId, row = { node with id := stored.id, stableId }) ∨
      (∀ stored ∈ db.nodes, stored.nodeKey ≠ node.nodeKey) ∧
        ∃ stableId, row = { node with id := nextRowid (db.nodes.map Node.id), stableId } := by
  have hfirst : ∀ db₁, db.insertOrUpdateNode node = .ok db₁ → ∀ row ∈ db₁.nodes,
      row ∈ db.nodes ∨
        (∃ stored ∈ db.nodes, stored.nodeKey = node.nodeKey ∧ row = { node with id := stored.id }) ∨
        (∀ stored ∈ db.nodes, stored.nodeKey ≠ node.nodeKey) ∧
          row = { node with id := nextRowid (db.nodes.map Node.id) } := by
    intro db₁ hok row hrow
    cases hlookup : db.getNodeByNodeKey node.nodeKey with
    | some before =>
      rw [insert_or_update_existing hlookup] at hok
      rw [congrArg Tables.nodes (commit_ok hok), List.mem_map] at hrow
      obtain ⟨stored, hstored, rfl⟩ := hrow
      split
      case isTrue hkey => exact .inr (.inl ⟨stored, hstored, hkey, rfl⟩)
      case isFalse => exact .inl hstored
    | none =>
      rw [insert_or_update_new hlookup] at hok
      rw [congrArg Tables.nodes (commit_ok hok), List.mem_append, List.mem_singleton] at hrow
      exact hrow.imp id fun hnew => .inr ⟨get_node_by_node_key_eq_none.mp hlookup, hnew⟩
  obtain hsame | ⟨db₁, hok, hsame | ⟨id, stableId, hset⟩⟩ := upsert_cases db node
  · rw [hsame] at h
    exact .inl ⟨row, h, _, rfl⟩
  · rw [hsame] at h
    obtain hstored | ⟨stored, hstored, hkey, rfl⟩ | ⟨hnew, rfl⟩ := hfirst db₁ hok row h
    · exact .inl ⟨row, hstored, _, rfl⟩
    · exact .inr (.inl ⟨stored, hstored, hkey, _, rfl⟩)
    · exact .inr (.inr ⟨hnew, _, rfl⟩)
  · rw [nodes_set_stable_id hset, List.mem_map] at h
    obtain ⟨before, hbefore, rfl⟩ := h
    obtain hstored | ⟨stored, hstored, hkey, rfl⟩ | ⟨hnew, rfl⟩ := hfirst db₁ hok before hbefore
    · refine .inl ⟨before, hstored, ?_⟩
      split <;> exact ⟨_, rfl⟩
    · refine .inr (.inl ⟨stored, hstored, hkey, ?_⟩)
      split <;> exact ⟨_, rfl⟩
    · refine .inr (.inr ⟨hnew, ?_⟩)
      split <;> exact ⟨_, rfl⟩

theorem mem_upsert (h : row ∈ (db.upsertNode node).2.nodes) :
    (∃ stored ∈ db.nodes, ∃ stableId, row = { stored with stableId }) ∨
      ∃ id stableId, row = { node with id, stableId } := by
  obtain hstored | ⟨stored, -, -, hrow⟩ | ⟨-, hrow⟩ := mem_upsert_cases h
  · exact .inl hstored
  · exact .inr ⟨_, hrow⟩
  · exact .inr ⟨_, hrow⟩

theorem mem_upsert_existing {other : Node} (hrow : row ∈ db.nodes)
    (hkey : row.nodeKey = node.nodeKey) (h : other ∈ (db.upsertNode node).2.nodes) :
    ∃ stored ∈ db.nodes, other.id = stored.id ∧ other.nodeKey = stored.nodeKey := by
  obtain ⟨stored, hstored, stableId, rfl⟩ | ⟨stored, hstored, hsame, stableId, rfl⟩ | ⟨hnew, -⟩ :=
    mem_upsert_cases h
  · exact ⟨stored, hstored, rfl, rfl⟩
  · exact ⟨stored, hstored, rfl, hsame.symm⟩
  · exact absurd hkey (hnew row hrow)

theorem id_upsert_existing {other : Node} (hrow : row ∈ db.nodes)
    (hkey : row.nodeKey = node.nodeKey) (h : other ∈ (db.upsertNode node).2.nodes)
    (hother : other.nodeKey = node.nodeKey) : other.id = row.id := by
  obtain ⟨stored, hstored, hid, hsame⟩ := mem_upsert_existing hrow hkey h
  have hfound : db.getNodeByNodeKey node.nodeKey = some stored :=
    get_node_by_node_key_eq_some.mpr ⟨hstored, hsame.symm.trans hother⟩
  rw [get_node_by_node_key_eq_some.mpr ⟨hrow, hkey⟩] at hfound
  cases hfound
  exact hid

theorem others_upsert (db : Db) (node : Node) : ∃ nodes lastInsertRowid,
    (db.upsertNode node).2.toTables = { db.toTables with nodes, lastInsertRowid } := by
  have hfirst : ∀ db₁, db.insertOrUpdateNode node = .ok db₁ → ∃ nodes lastInsertRowid,
      db₁.toTables = { db.toTables with nodes, lastInsertRowid } := by
    intro db₁ hok
    cases hlookup : db.getNodeByNodeKey node.nodeKey with
    | some before =>
      rw [insert_or_update_existing hlookup] at hok
      exact ⟨_, _, commit_ok hok⟩
    | none =>
      rw [insert_or_update_new hlookup] at hok
      exact ⟨_, _, commit_ok hok⟩
  obtain hsame | ⟨db₁, hok, hsame | ⟨id, stableId, hset⟩⟩ := upsert_cases db node
  · exact ⟨_, _, congrArg Db.toTables hsame⟩
  · rw [hsame]
    exact hfirst db₁ hok
  · obtain ⟨nodes, last, htables⟩ := hfirst db₁ hok
    have hset := commit_ok hset
    rw [htables] at hset
    exact ⟨_, _, hset⟩

theorem nodes_delete (db : Db) (nodeKey : NodeKey) :
    (db.deleteNode nodeKey).2.nodes ⊆ db.nodes := by
  unfold deleteNode
  split
  · obtain hsame | htables := statement_cases db
      { db.toTables with nodes := db.nodes.filter (·.nodeKey ≠ nodeKey) } ()
    · rw [hsame]
      exact List.Subset.refl _
    · rw [htables]
      exact List.filter_sublist.subset
  · exact List.Subset.refl _

/-! ## Authorized rows -/

def authorizes (db : Db) (nodeKey : NodeKey) : Bool :=
  (db.getNodeByNodeKey nodeKey).any Node.machineAuthorized

theorem authorizes_iff :
    db.authorizes nodeKey = true ↔
      ∃ row ∈ db.nodes, row.nodeKey = nodeKey ∧ row.machineAuthorized = true := by
  simp only [authorizes, Option.any_eq_true, get_node_by_node_key_eq_some, and_assoc]

theorem authorizes_congr {db' : Db} (h : db'.nodes = db.nodes) (nodeKey : NodeKey) :
    db'.authorizes nodeKey = db.authorizes nodeKey := by
  simp only [authorizes, Db.getNodeByNodeKey, h]

theorem authorizes_upsert (h : (db.upsertNode node).2.authorizes nodeKey = true) :
    db.authorizes nodeKey = true ∨ node.nodeKey = nodeKey ∧ node.machineAuthorized = true := by
  obtain ⟨row, hrow, hkey, hauthorized⟩ := authorizes_iff.mp h
  obtain ⟨stored, hstored, stableId, rfl⟩ | ⟨id, stableId, rfl⟩ := mem_upsert hrow
  · exact .inl (authorizes_iff.mpr ⟨stored, hstored, hkey, hauthorized⟩)
  · exact .inr ⟨hkey, hauthorized⟩

theorem authorizes_delete {deleted : NodeKey}
    (h : (db.deleteNode deleted).2.authorizes nodeKey = true) : db.authorizes nodeKey = true := by
  obtain ⟨row, hrow, hkey, hauthorized⟩ := authorizes_iff.mp h
  exact authorizes_iff.mpr ⟨row, nodes_delete db deleted hrow, hkey, hauthorized⟩

end Db

/-! ## Which table a call writes -/

/-- The tables of the database. -/
inductive Table where
  | users
  | logins
  | nodes
  | preAuthKeys
  | pending
  | sshAuths
  deriving DecidableEq

def StoreCall.writes : StoreCall → Option Table
  | createUser _ | updateUserDisplayName _ _ => some .users
  | createLogin _ => some .logins
  | upsertNode _ | deleteNode _ => some .nodes
  | createPreAuthKey _ | markPreAuthKeyUsed _ | revokePreAuthKey _ => some .preAuthKeys
  | savePending _ | deletePending _ => some .pending
  | saveSshAuth _ | deleteSshAuth _ => some .sshAuths
  | getUser _ | getUserByLoginName _ | getLogin _ | getLoginByProviderSubject _ _
  | getNodeByNodeKey _ | getNodeById _ | listNodes | getPreAuthKey _ | getPending _ | getSshAuth _
  | listSshAuths => none

def Call.writes : Call → Option Table
  | .store c => c.writes
  | .memory _ | .env _ => none

theorem Call.store_of_writes {c : Call} {table : Table} (h : c.writes = some table) :
    ∃ c', c = .store c' := by
  cases c with
  | store c => exact ⟨c, rfl⟩
  | memory c => cases h
  | env c => cases h

structure SameBut (written : Option Table) (t t' : Tables) : Prop where
  users : written ≠ some .users → t'.users = t.users
  logins : written ≠ some .logins → t'.logins = t.logins
  nodes : written ≠ some .nodes → t'.nodes = t.nodes
  preAuthKeys : written ≠ some .preAuthKeys → t'.preAuthKeys = t.preAuthKeys
  pending : written ≠ some .pending → t'.pending = t.pending
  sshAuths : written ≠ some .sshAuths → t'.sshAuths = t.sshAuths

theorem SameBut.refl (written : Option Table) (t : Tables) : SameBut written t t :=
  ⟨fun _ => rfl, fun _ => rfl, fun _ => rfl, fun _ => rfl, fun _ => rfl, fun _ => rfl⟩

theorem SameBut.statement {written : Option Table} {answer : α}
    (h : SameBut written db.toTables t) :
    SameBut written db.toTables (db.statement t answer).2.toTables := by
  obtain hsame | htables := Db.statement_cases db t answer
  · rw [hsame]
    exact .refl _ _
  · rw [htables]
    exact h

theorem StoreCall.same_but (db : Db) (c : StoreCall) :
    SameBut c.writes db.toTables (c.exec db).2.toTables := by
  cases c with
  | getUser | getUserByLoginName | getLogin | getLoginByProviderSubject | getNodeByNodeKey
  | getNodeById | listNodes | getPreAuthKey | getPending | getSshAuth | listSshAuths =>
    exact .refl _ _
  | upsertNode node =>
    obtain ⟨nodes, last, htables⟩ := db.others_upsert node
    change SameBut _ _ (db.upsertNode node).2.toTables
    rw [htables]
    constructor <;> intro h <;> first | rfl | exact absurd rfl h
  | createUser | createLogin | createPreAuthKey | deletePending | deleteSshAuth =>
    refine .statement ?_
    constructor <;> intro h <;> first | rfl | exact absurd rfl h
  | updateUserDisplayName | deleteNode | markPreAuthKeyUsed | revokePreAuthKey | savePending
  | saveSshAuth =>
    simp only [exec, Db.updateUserDisplayName, Db.deleteNode, Db.markPreAuthKeyUsed,
      Db.revokePreAuthKey, Db.savePending, Db.saveSshAuth]
    split
    all_goals first
      | exact .refl _ _
      | refine .statement ?_
        constructor <;> intro h <;> first | rfl | exact absurd rfl h

theorem Call.same_but (c : Call) (w : World) :
    SameBut c.writes w.db.toTables (handler c w).2.db.toTables := by
  cases c with
  | store c => exact c.same_but w.db
  | memory c => cases c <;> exact .refl _ _
  | env c => exact .refl _ _

/-! ## What a call leaves in a table -/

section Tables

variable {w : World} {c : Call}

theorem Call.nodes_cases (c : Call) (w : World) :
    (handler c w).2.db.nodes = w.db.nodes ∨ (∃ nodeKey, c = .store (.deleteNode nodeKey)) ∨
      ∃ node, c = .store (.upsertNode node) := by
  by_cases hwrites : c.writes = some .nodes
  · obtain ⟨c, rfl⟩ := Call.store_of_writes hwrites
    cases c with
    | deleteNode nodeKey => exact .inr (.inl ⟨nodeKey, rfl⟩)
    | upsertNode node => exact .inr (.inr ⟨node, rfl⟩)
    | _ => cases hwrites
  · exact .inl ((c.same_but w).nodes hwrites)

theorem Call.pending_cases (c : Call) (w : World) :
    (handler c w).2.db.pending = w.db.pending ∨ (∃ entry, c = .store (.savePending entry)) ∨
      ∃ authId, c = .store (.deletePending authId) := by
  by_cases hwrites : c.writes = some .pending
  · obtain ⟨c, rfl⟩ := Call.store_of_writes hwrites
    cases c with
    | savePending entry => exact .inr (.inl ⟨entry, rfl⟩)
    | deletePending authId => exact .inr (.inr ⟨authId, rfl⟩)
    | _ => cases hwrites
  · exact .inl ((c.same_but w).pending hwrites)

theorem Call.pre_auth_keys_cases (c : Call) (w : World) :
    (handler c w).2.db.preAuthKeys = w.db.preAuthKeys ∨
      (∃ new, c = .store (.createPreAuthKey new)) ∨
      (∃ id, c = .store (.markPreAuthKeyUsed id)) ∨
      ∃ keyPrefix, c = .store (.revokePreAuthKey keyPrefix) := by
  by_cases hwrites : c.writes = some .preAuthKeys
  · obtain ⟨c, rfl⟩ := Call.store_of_writes hwrites
    cases c with
    | createPreAuthKey new => exact .inr (.inl ⟨new, rfl⟩)
    | markPreAuthKeyUsed id => exact .inr (.inr (.inl ⟨id, rfl⟩))
    | revokePreAuthKey keyPrefix => exact .inr (.inr (.inr ⟨keyPrefix, rfl⟩))
    | _ => cases hwrites
  · exact .inl ((c.same_but w).preAuthKeys hwrites)

/-- A node row after a call is a row from before, up to its stable id, or the node that the call
writes, up to its ids. -/
theorem Call.mem_nodes (h : row ∈ (handler c w).2.db.nodes) :
    (∃ stored ∈ w.db.nodes, ∃ stableId, row = { stored with stableId }) ∨
      ∃ node id stableId, c = .store (.upsertNode node) ∧ row = { node with id, stableId } := by
  obtain hsame | ⟨nodeKey, rfl⟩ | ⟨node, rfl⟩ := c.nodes_cases w
  · exact .inl ⟨row, hsame ▸ h, row.stableId, rfl⟩
  · exact .inl ⟨row, Db.nodes_delete w.db nodeKey h, row.stableId, rfl⟩
  · obtain hstored | ⟨id, stableId, hrow⟩ := Db.mem_upsert h
    · exact .inl hstored
    · exact .inr ⟨node, id, stableId, rfl, hrow⟩

theorem mem_statement_map {β : Type} {answer : α} (table : Tables → List β)
    {edit : β → β} {row : β} (htable : table t = (table db.toTables).map edit)
    (h : row ∈ table (db.statement t answer).2.toTables) :
    row ∈ table db.toTables ∨ ∃ stored ∈ table db.toTables, row = edit stored := by
  obtain hsame | htables := Db.statement_cases db t answer
  · rw [hsame] at h
    exact .inl h
  · rw [htables, htable, List.mem_map] at h
    obtain ⟨stored, hstored, rfl⟩ := h
    exact .inr ⟨stored, hstored, rfl⟩

theorem mem_statement_append {β : Type} {answer : α}
    (table : Tables → List β) {new row : β} (htable : table t = table db.toTables ++ [new])
    (h : row ∈ table (db.statement t answer).2.toTables) : row ∈ table db.toTables ∨ row = new := by
  obtain hsame | htables := Db.statement_cases db t answer
  · rw [hsame] at h
    exact .inl h
  · rw [htables, htable, List.mem_append, List.mem_singleton] at h
    exact h

/-- A pre-auth key after a call is a key from before, perhaps revoked or used by now, or the key
that the call creates. -/
theorem Call.mem_pre_auth_keys {key : PreAuthKey} (h : key ∈ (handler c w).2.db.preAuthKeys) :
    (∃ stored ∈ w.db.preAuthKeys, ∃ revoked used, key = { stored with revoked, used }) ∨
      ∃ new id, c = .store (.createPreAuthKey new) ∧ key = { new with id } := by
  obtain hsame | ⟨new, rfl⟩ | ⟨id, rfl⟩ | ⟨keyPrefix, rfl⟩ := c.pre_auth_keys_cases w
  · exact .inl ⟨key, hsame ▸ h, _, _, rfl⟩
  · obtain hstored | rfl := mem_statement_append Tables.preAuthKeys rfl h
    · exact .inl ⟨key, hstored, _, _, rfl⟩
    · exact .inr ⟨new, _, rfl, rfl⟩
  · change key ∈ (w.db.markPreAuthKeyUsed id).2.preAuthKeys at h
    unfold Db.markPreAuthKeyUsed at h
    split at h
    case isFalse => exact .inl ⟨key, h, _, _, rfl⟩
    obtain hstored | ⟨stored, hstored, rfl⟩ := mem_statement_map Tables.preAuthKeys rfl h
    · exact .inl ⟨key, hstored, _, _, rfl⟩
    · refine .inl ⟨stored, hstored, ?_⟩
      split <;> exact ⟨_, _, rfl⟩
  · change key ∈ (w.db.revokePreAuthKey keyPrefix).2.preAuthKeys at h
    unfold Db.revokePreAuthKey at h
    split at h
    case isFalse => exact .inl ⟨key, h, _, _, rfl⟩
    obtain hstored | ⟨stored, hstored, rfl⟩ := mem_statement_map Tables.preAuthKeys rfl h
    · exact .inl ⟨key, hstored, _, _, rfl⟩
    · refine .inl ⟨stored, hstored, ?_⟩
      split <;> exact ⟨_, _, rfl⟩

theorem Call.mem_pending {row : PendingRow} (h : row ∈ (handler c w).2.db.pending) :
    (∃ stored ∈ w.db.pending, row.entry = stored.entry) ∨
      c = .store (.savePending row.entry) := by
  obtain hsame | ⟨entry, rfl⟩ | ⟨authId, rfl⟩ := c.pending_cases w
  · exact .inl ⟨row, hsame ▸ h, rfl⟩
  · change row ∈ (w.db.savePending entry).2.pending at h
    unfold Db.savePending at h
    split at h
    · obtain hstored | ⟨stored, hstored, rfl⟩ := mem_statement_map Tables.pending rfl h
      · exact .inl ⟨row, hstored, rfl⟩
      · split
        · exact .inr rfl
        · exact .inl ⟨stored, hstored, rfl⟩
    · obtain hstored | rfl := mem_statement_append Tables.pending rfl h
      · exact .inl ⟨row, hstored, rfl⟩
      · exact .inr rfl
  · change row ∈ (w.db.deletePending authId).2.pending at h
    unfold Db.deletePending at h
    obtain hsame | htables := Db.statement_cases w.db
      { w.db.toTables with pending := w.db.pending.filter (·.entry.authId ≠ authId) } ()
    · rw [hsame] at h
      exact .inl ⟨row, h, rfl⟩
    · rw [htables] at h
      exact .inl ⟨row, List.mem_of_mem_filter h, rfl⟩

theorem Call.pending_kept {row : PendingRow} (hrow : row ∈ w.db.pending)
    (hsave : ∀ entry, c = .store (.savePending entry) → entry.authId ≠ row.entry.authId)
    (hdelete : c ≠ .store (.deletePending row.entry.authId)) :
    row ∈ (handler c w).2.db.pending := by
  obtain hsame | ⟨entry, rfl⟩ | ⟨authId, rfl⟩ := c.pending_cases w
  · rw [hsame]
    exact hrow
  · have hother := hsave entry rfl
    change row ∈ (w.db.savePending entry).2.pending
    unfold Db.savePending
    split
    · obtain hsame | htables := Db.statement_cases w.db { w.db.toTables with
        pending := w.db.pending.map fun row =>
          if row.entry.authId = entry.authId then { row with entry } else row } ()
      · rw [hsame]
        exact hrow
      · rw [htables]
        exact List.mem_map.mpr ⟨row, hrow, if_neg hother.symm⟩
    · obtain hsame | htables := Db.statement_cases w.db { w.db.toTables with
        pending := w.db.pending ++
          [{ rowid := nextRowid (w.db.pending.map PendingRow.rowid), entry }]
        lastInsertRowid := nextRowid (w.db.pending.map PendingRow.rowid) } ()
      · rw [hsame]
        exact hrow
      · rw [htables]
        exact List.mem_append_left _ hrow
  · change row ∈ (w.db.deletePending authId).2.pending
    unfold Db.deletePending
    obtain hsame | htables := Db.statement_cases w.db
      { w.db.toTables with pending := w.db.pending.filter (·.entry.authId ≠ authId) } ()
    · rw [hsame]
      exact hrow
    · rw [htables]
      refine List.mem_filter.mpr ⟨hrow, decide_eq_true fun heq => hdelete ?_⟩
      rw [heq]

theorem Call.get_pending_cases {authId : String}
    (h : (handler c w).2.db.getPending authId = some entry) :
    w.db.getPending authId = some entry ∨ c = .store (.savePending entry) := by
  obtain ⟨hid, row, hrow, rfl⟩ := Db.get_pending_eq_some.mp h
  obtain ⟨stored, hstored, hentry⟩ | hsave := Call.mem_pending hrow
  · exact .inl (Db.get_pending_eq_some.mpr ⟨hid, stored, hstored, hentry.symm⟩)
  · exact .inr hsave

theorem Call.get_pending_kept {authId : String} (h : w.db.getPending authId = some entry)
    (hsave : ∀ saved, c = .store (.savePending saved) → saved.authId ≠ authId)
    (hdelete : c ≠ .store (.deletePending authId)) :
    (handler c w).2.db.getPending authId = some entry := by
  obtain ⟨rfl, row, hrow, rfl⟩ := Db.get_pending_eq_some.mp h
  exact Db.get_pending_eq_some.mpr ⟨rfl, row, Call.pending_kept hrow hsave hdelete, rfl⟩

theorem Db.get_pending_save {db' : Db}
    (h : db.savePending entry = (.ok (), db')) : db'.getPending entry.authId = some entry := by
  refine Db.get_pending_eq_some.mpr ⟨rfl, ?_⟩
  unfold Db.savePending at h
  split at h
  case isTrue hsome =>
    obtain ⟨stored, hstored⟩ := Option.isSome_iff_exists.mp hsome
    obtain ⟨hid, row, hrow, rfl⟩ := Db.get_pending_eq_some.mp hstored
    rw [(Db.statement_ok h).1]
    exact ⟨{ row with entry }, List.mem_map.mpr ⟨row, hrow, if_pos hid⟩, rfl⟩
  case isFalse =>
    rw [(Db.statement_ok h).1]
    exact ⟨_, List.mem_append_right _ List.mem_cons_self, rfl⟩

theorem Db.save_pending_cases (db : Db) (entry : PendingRegistration) :
    (db.savePending entry).2 = db ∨
      (db.savePending entry).2.getPending entry.authId = some entry := by
  cases hrun : db.savePending entry with
  | mk answer db' =>
    cases answer with
    | ok _ => exact .inr (Db.get_pending_save hrun)
    | error error =>
      unfold Db.savePending at hrun
      split at hrun <;> exact .inl (Db.statement_error hrun)

theorem Db.delete_pending_ok (db : Db) (authId : String) :
    ∃ db', db.deletePending authId = (.ok (), db') ∧ db'.toTables =
      { db.toTables with pending := db.pending.filter (·.entry.authId ≠ authId) } := by
  have hvalid : Tables.Valid
      { db.toTables with pending := db.pending.filter (·.entry.authId ≠ authId) } :=
    { db.valid with
      pendingIds := db.valid.pendingIds.sublist (List.filter_sublist.map _) }
  exact ⟨_, Db.statement_of_valid db hvalid (), rfl⟩

theorem Db.users_save_pending {db' : Db}
    (h : db.savePending entry = (.ok (), db')) : db'.users = db.users := by
  have hsame := (StoreCall.same_but db (.savePending entry)).users (by rintro ⟨⟩)
  rwa [StoreCall.exec, h] at hsame

theorem subset_statement {β γ : Type} {answer : α} (table : Tables → List β)
    {key : β → γ} (h : (table db.toTables).map key ⊆ (table t).map key) :
    (table db.toTables).map key ⊆ (table (db.statement t answer).2.toTables).map key := by
  obtain hsame | htables := Db.statement_cases db t answer
  · rw [hsame]
    exact List.Subset.refl _
  · rw [htables]
    exact h

theorem map_edit_subset {β γ : Type} {rows : List β} {key : β → γ} {edit : β → β}
    (h : ∀ row, key (edit row) = key row) : rows.map key ⊆ (rows.map edit).map key := by
  rw [List.map_map, show key ∘ edit = key from funext h]
  exact List.Subset.refl _

theorem Call.pre_auth_keys_subset {γ : Type} {view : PreAuthKey → γ}
    (hview : ∀ key revoked used, view { key with revoked, used } = view key) (c : Call)
    (w : World) : w.db.preAuthKeys.map view ⊆ (handler c w).2.db.preAuthKeys.map view := by
  obtain hsame | ⟨new, rfl⟩ | ⟨id, rfl⟩ | ⟨keyPrefix, rfl⟩ := c.pre_auth_keys_cases w
  · rw [hsame]
    exact List.Subset.refl _
  · exact subset_statement Tables.preAuthKeys (List.map_subset _ (List.subset_append_left _ _))
  · change _ ⊆ (w.db.markPreAuthKeyUsed id).2.preAuthKeys.map _
    unfold Db.markPreAuthKeyUsed
    split
    · refine subset_statement Tables.preAuthKeys (map_edit_subset fun key => ?_)
      split
      · exact hview key key.revoked true
      · rfl
    · exact List.Subset.refl _
  · change _ ⊆ (w.db.revokePreAuthKey keyPrefix).2.preAuthKeys.map _
    unfold Db.revokePreAuthKey
    split
    · refine subset_statement Tables.preAuthKeys (map_edit_subset fun key => ?_)
      split
      · exact hview key true key.used
      · rfl
    · exact List.Subset.refl _

theorem Call.key_prefixes_subset (c : Call) (w : World) :
    w.db.preAuthKeys.map PreAuthKey.keyPrefix ⊆
      (handler c w).2.db.preAuthKeys.map PreAuthKey.keyPrefix :=
  Call.pre_auth_keys_subset (fun _ _ _ => rfl) c w

theorem map_statement_cases {β γ : Type} {answer : α} (table : Tables → List β) (key : β → γ) :
    (table (db.statement t answer).2.toTables).map key = (table db.toTables).map key ∨
      (table (db.statement t answer).2.toTables).map key = (table t).map key :=
  (Db.statement_cases db t answer).imp (fun h => by rw [h]) fun h => by rw [h]

/-- The ids of the users stay, or a call that creates a user adds its id. -/
theorem Call.user_ids_cases (c : Call) (w : World) :
    (handler c w).2.db.users.map User.id = w.db.users.map User.id ∨
      ∃ user, c = .store (.createUser user) ∧ (handler c w).2.db.users.map User.id =
        w.db.users.map User.id ++
          [if user.id = 0 then nextRowid (w.db.users.map User.id) else user.id] := by
  by_cases hwrites : c.writes ≠ some .users
  · exact .inl (by rw [(c.same_but w).users hwrites])
  rw [not_not] at hwrites
  obtain ⟨c, rfl⟩ := Call.store_of_writes hwrites
  cases c with
  | createUser user =>
    refine (map_statement_cases Tables.users _).imp_right fun hadded => ⟨user, rfl, ?_⟩
    exact hadded.trans List.map_append
  | updateUserDisplayName id displayName =>
    change (w.db.updateUserDisplayName id displayName).2.users.map _ = _ ∨ _
    unfold Db.updateUserDisplayName
    split
    case isFalse => exact .inl rfl
    obtain hsame | hedited := map_statement_cases Tables.users User.id
    · exact .inl hsame
    refine .inl (hedited.trans ?_)
    rw [List.map_map]
    refine List.map_congr_left fun user _ => ?_
    dsimp only [Function.comp_apply]
    split <;> rfl
  | _ => cases hwrites

theorem Call.login_ids_cases (c : Call) (w : World) :
    (handler c w).2.db.logins.map Login.id = w.db.logins.map Login.id ∨
      ∃ login, c = .store (.createLogin login) ∧ (handler c w).2.db.logins.map Login.id =
        w.db.logins.map Login.id ++
          [if login.id = 0 then nextRowid (w.db.logins.map Login.id) else login.id] := by
  by_cases hwrites : c.writes ≠ some .logins
  · exact .inl (by rw [(c.same_but w).logins hwrites])
  rw [not_not] at hwrites
  obtain ⟨c, rfl⟩ := Call.store_of_writes hwrites
  cases c with
  | createLogin login =>
    refine (map_statement_cases Tables.logins _).imp_right fun hadded => ⟨login, rfl, ?_⟩
    exact hadded.trans List.map_append
  | _ => cases hwrites

theorem Call.user_ids_subset (c : Call) (w : World) :
    w.db.users.map User.id ⊆ (handler c w).2.db.users.map User.id := by
  obtain hsame | ⟨user, -, hadded⟩ := c.user_ids_cases w
  · rw [hsame]
    exact List.Subset.refl _
  · rw [hadded]
    exact List.subset_append_left _ _

theorem Call.login_ids_subset (c : Call) (w : World) :
    w.db.logins.map Login.id ⊆ (handler c w).2.db.logins.map Login.id := by
  obtain hsame | ⟨login, -, hadded⟩ := c.login_ids_cases w
  · rw [hsame]
    exact List.Subset.refl _
  · rw [hadded]
    exact List.subset_append_left _ _

end Tables

theorem Db.edit_keys_valid {db : Db} {edit : PreAuthKey → PreAuthKey}
    (hid : ∀ key, (edit key).id = key.id) (hname : ∀ key, (edit key).keyPrefix = key.keyPrefix)
    (huser : ∀ key, (edit key).userId = key.userId) :
    Tables.Valid { db.toTables with preAuthKeys := db.preAuthKeys.map edit } :=
  { db.valid with
    keyIds := by
      rw [List.map_map, show PreAuthKey.id ∘ edit = PreAuthKey.id from funext hid]
      exact db.valid.keyIds
    keyPrefixes := by
      rw [List.map_map, show PreAuthKey.keyPrefix ∘ edit = PreAuthKey.keyPrefix from funext hname]
      exact db.valid.keyPrefixes
    keyUsers := by
      intro edited hedited
      obtain ⟨key, hkey, rfl⟩ := List.mem_map.mp hedited
      rw [huser]
      exact db.valid.keyUsers key hkey }

end Crabscale.Control
