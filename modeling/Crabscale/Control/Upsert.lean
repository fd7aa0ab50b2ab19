import Crabscale.Control.StableIds

/-!
# What an upsert stores and what it returns

An upsert writes the node under its key and then gives a row a stable id: that of the node's own id
or, for id zero, that of the last insert. After an update this is whatever row was inserted last,
into any table. In all other cases an upsert stores what it returns (`upsert_stores_iff`).
-/

namespace Crabscale.Control

open Rust

/-- The node that an upsert returned is the row with its key. The row has the id that it had before,
if there was one, and a stable id of its own; no other row changed. -/
structure StoresReturned (db : Db) (node stored : Node) (db' : Db) : Prop where
  found : db'.getNodeByNodeKey stored.nodeKey = some stored
  sameId : ∀ row, db.getNodeByNodeKey node.nodeKey = some row →
    ∃ after, db'.getNodeByNodeKey node.nodeKey = some after ∧ after.id = row.id
  stableId : ∃ after, db'.getNodeByNodeKey node.nodeKey = some after ∧ after.stableId ≠ "" ∧
    ∀ other ∈ db'.nodes, other.stableId = after.stableId → other = after
  others : ∀ row : Node, row.nodeKey ≠ node.nodeKey → (row ∈ db'.nodes ↔ row ∈ db.nodes)
  tables : ∃ nodes lastInsertRowid, db'.toTables = { db.toTables with nodes, lastInsertRowid }

namespace Db

variable {db db₁ db' : Db} {node stored : Node}

/-- The first statement of an upsert writes the node under the id of the row with its key, or under
that of the insert. -/
structure Written (db : Db) (node : Node) (id : Nat) (db₁ : Db) : Prop where
  written : { node with id } ∈ db₁.nodes
  others : ∀ row : Node, row.nodeKey ≠ node.nodeKey → (row ∈ db₁.nodes ↔ row ∈ db.nodes)
  existing : ∀ row, db.getNodeByNodeKey node.nodeKey = some row →
    row.id = id ∧ db₁.lastInsertRowid = db.lastInsertRowid
  new : db.getNodeByNodeKey node.nodeKey = none → db₁.lastInsertRowid = id

theorem insert_or_update_written (h : db.insertOrUpdateNode node = .ok db₁) :
    ∃ id, Written db node id db₁ := by
  cases hlookup : db.getNodeByNodeKey node.nodeKey with
  | some row =>
    rw [insert_or_update_existing hlookup] at h
    have htables := commit_ok h
    obtain ⟨hrow, hkey⟩ := get_node_by_node_key_eq_some.mp hlookup
    refine ⟨row.id, ?_, fun other hother => ?_, ?_, ?_⟩
    · rw [htables]
      exact List.mem_map.mpr ⟨row, hrow, if_pos hkey⟩
    · rw [htables, List.mem_map]
      constructor
      · rintro ⟨before, hbefore, rfl⟩
        split at hother
        case isTrue => exact absurd rfl hother
        case isFalse hne =>
          rw [if_neg hne]
          exact hbefore
      · intro hmem
        exact ⟨other, hmem, if_neg hother⟩
    · intro before hbefore
      rw [hlookup] at hbefore
      cases hbefore
      rw [htables]
      exact ⟨rfl, rfl⟩
    · intro hnone
      rw [hlookup] at hnone
      cases hnone
  | none =>
    rw [insert_or_update_new hlookup] at h
    have htables := commit_ok h
    refine ⟨nextRowid (db.nodes.map Node.id), ?_, fun other hother => ?_, ?_, ?_⟩
    · rw [htables]
      exact List.mem_append_right _ (List.mem_singleton_self _)
    · rw [htables, List.mem_append, List.mem_singleton, or_iff_left]
      rintro rfl
      exact hother rfl
    · intro before hbefore
      rw [hlookup] at hbefore
      cases hbefore
    · intro _
      rw [htables]

def targetId (node : Node) (db₁ : Db) : Nat := if node.id = 0 then db₁.lastInsertRowid else node.id

/-- An upsert that succeeds writes the node and, if it has no stable id, gives one to the row with
the id that it returns. -/
theorem upsert_ok_cases (h : db.upsertNode node = (.ok stored, db')) :
    ∃ db₁, db.insertOrUpdateNode node = .ok db₁ ∧
      ((node.stableId = "" ∧
          db₁.setStableId (targetId node db₁) (stableIdOf (targetId node db₁)) = .ok db' ∧
          stored = { node with
            id := targetId node db₁, stableId := stableIdOf (targetId node db₁) }) ∨
        (node.stableId ≠ "" ∧ db' = db₁ ∧ stored = { node with id := targetId node db₁ })) := by
  cases hfirst : db.insertOrUpdateNode node with
  | error error =>
    rw [upsert_failed hfirst] at h
    cases h
  | ok db₁ =>
    refine ⟨db₁, rfl, ?_⟩
    unfold upsertNode at h
    rw [hfirst] at h
    dsimp only at h
    rw [show (if node.id = 0 then db₁.lastInsertRowid else node.id) = targetId node db₁
      from rfl] at h
    split at h
    case isTrue hempty =>
      cases hset : db₁.setStableId (targetId node db₁) (stableIdOf (targetId node db₁)) with
      | error error =>
        rw [hset] at h
        cases h
      | ok db₂ =>
        rw [hset] at h
        cases h
        exact .inl ⟨hempty, rfl, rfl⟩
    case isFalse hne =>
      cases h
      exact .inr ⟨hne, rfl, rfl⟩

theorem upsert_stored (h : db.upsertNode node = (.ok stored, db'))
    (hfirst : db.insertOrUpdateNode node = .ok db₁) {id : Nat} (hwritten : Written db node id db₁)
    (htarget : targetId node db₁ = id) :
    stored ∈ db'.nodes ∧ stored.nodeKey = node.nodeKey ∧ stored.id = id ∧ stored.stableId ≠ "" ∧
      ∀ row : Node, row.nodeKey ≠ node.nodeKey → (row ∈ db'.nodes ↔ row ∈ db.nodes) := by
  obtain ⟨db₁', hok, hcases⟩ := upsert_ok_cases h
  rw [hfirst] at hok
  cases hok
  rw [htarget] at hcases
  obtain ⟨hempty, hset, rfl⟩ | ⟨hne, rfl, rfl⟩ := hcases
  · have hnodes := nodes_set_stable_id hset
    refine ⟨?_, rfl, rfl, stable_id_of_ne_empty id, fun row hrow => ?_⟩
    · rw [hnodes]
      exact List.mem_map.mpr ⟨_, hwritten.written, if_pos rfl⟩
    · rw [← hwritten.others row hrow, hnodes, List.mem_map]
      -- Only the row that was written has the id.
      have hid (before : Node) (hbefore : before ∈ db₁.nodes) (heq : before.id = id) :
          before.nodeKey = node.nodeKey := by
        rw [List.inj_on_of_nodup_map (nodup_node_ids db₁) hbefore hwritten.written heq]
      constructor
      · rintro ⟨before, hbefore, rfl⟩
        split at hrow
        case isTrue heq => exact absurd (hid before hbefore heq) hrow
        case isFalse hne =>
          rw [if_neg hne]
          exact hbefore
      · intro hmem
        exact ⟨row, hmem, if_neg fun heq => hrow (hid row hmem heq)⟩
  · exact ⟨hwritten.written, rfl, rfl, hne, hwritten.others⟩

end Db

/-- An upsert of a node with id zero, or with the id of the row with its key, stores what it returns
if and only if it does not write over a row under id zero, unless that row's id is that of the last
insert. -/
theorem upsert_stores_iff (db : Db) (node stored : Node) (db' : Db)
    (hid : node.id = 0 ∨ ∃ row, db.getNodeByNodeKey node.nodeKey = some row ∧ node.id = row.id)
    (h : db.upsertNode node = (.ok stored, db')) :
    StoresReturned db node stored db' ↔
      (node.id = 0 → ∀ row, db.getNodeByNodeKey node.nodeKey = some row →
        row.id = db.lastInsertRowid) := by
  obtain ⟨db₁, hfirst, hcases⟩ := Db.upsert_ok_cases h
  obtain ⟨id, hwritten⟩ := Db.insert_or_update_written hfirst
  constructor
  · intro hstores hzero row hrow
    obtain ⟨rfl, hlast⟩ := hwritten.existing row hrow
    have hreturned : stored.id = db.lastInsertRowid ∧ stored.nodeKey = node.nodeKey := by
      have htarget : Db.targetId node db₁ = db.lastInsertRowid := (if_pos hzero).trans hlast
      obtain ⟨-, -, rfl⟩ | ⟨-, -, rfl⟩ := hcases
      · exact ⟨htarget, rfl⟩
      · exact ⟨htarget, rfl⟩
    obtain ⟨after, hafter, hsame⟩ := hstores.sameId row hrow
    have hfound := hstores.found
    rw [hreturned.2, hafter] at hfound
    cases hfound
    exact hsame.symm.trans hreturned.1
  · intro hlast
    have htarget : Db.targetId node db₁ = id := by
      unfold Db.targetId
      cases hlookup : db.getNodeByNodeKey node.nodeKey with
      | none =>
        obtain hzero | ⟨row, hrow, -⟩ := hid
        · rw [if_pos hzero]
          exact hwritten.new hlookup
        · rw [hlookup] at hrow
          cases hrow
      | some row =>
        obtain ⟨rfl, hsame⟩ := hwritten.existing row hlookup
        obtain hzero | ⟨row', hrow, hown⟩ := hid
        · rw [if_pos hzero, hsame, hlast hzero row hlookup]
        · rw [hlookup] at hrow
          cases hrow
          have hpos := db.valid.nodeIdsPos row (Db.get_node_by_node_key_eq_some.mp hlookup).1
          rw [if_neg (hown ▸ Nat.ne_of_gt hpos), hown]
    obtain ⟨hmem, hkey, hstored, hstable, hothers⟩ := Db.upsert_stored h hfirst hwritten htarget
    have hfound : db'.getNodeByNodeKey node.nodeKey = some stored :=
      Db.get_node_by_node_key_eq_some.mpr ⟨hmem, hkey⟩
    refine ⟨?_, fun row hrow => ?_, ?_, hothers, ?_⟩
    · rw [hkey]
      exact hfound
    · obtain ⟨hsame, -⟩ := hwritten.existing row hrow
      exact ⟨stored, hfound, hstored.trans hsame.symm⟩
    · refine ⟨stored, hfound, hstable, fun other hother heq => ?_⟩
      exact List.inj_on_of_nodup_map db'.valid.stableIds hother hmem heq
    · obtain ⟨nodes, lastInsertRowid, htables⟩ := Db.others_upsert db node
      rw [h] at htables
      exact ⟨nodes, lastInsertRowid, htables⟩

/-- A node that is new to an empty database. -/
theorem upsert_stores_new :
    ∃ stored db', Db.empty.upsertNode { plainNode 0 with stableId := "" } = (.ok stored, db') ∧
      StoresReturned Db.empty { plainNode 0 with stableId := "" } stored db' := by
  have hnone : Db.empty.getNodeByNodeKey ⟨0⟩ = none := rfl
  obtain ⟨stored, db', hok⟩ : ∃ stored db',
      Db.empty.upsertNode { plainNode 0 with stableId := "" } = (.ok stored, db') := by
    refine Db.upsert_new_ok (fun row hrow => ?_) rfl rfl (fun row hrow => ?_) fun userId huser => ?_
    · cases hrow
    · cases hrow
    · cases huser
  refine ⟨stored, db', hok,
    (upsert_stores_iff Db.empty _ stored db' (.inl rfl) hok).mpr fun _ row hrow => ?_⟩
  cases hnone.symm.trans hrow

def secondLast : Db where
  nodes := pairDb.nodes
  lastInsertRowid := 2
  valid := by decide

/-- Writing over the first node under id zero returns the second one's id and stable id, and leaves
the first without a stable id. -/
theorem upsert_returns_last_insert :
    (secondLast.upsertNode { plainNode 1 with id := 0, stableId := "" }).1 =
        .ok { plainNode 1 with id := 2, stableId := Db.stableIdOf 2 } ∧
      (secondLast.upsertNode { plainNode 1 with id := 0, stableId := "" }).2.getNodeByNodeKey ⟨1⟩ =
        some { plainNode 1 with stableId := "" } := by
  decide +kernel

end Crabscale.Control
