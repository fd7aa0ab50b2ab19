import Crabscale.Control.KeyBinding
import Crabscale.Control.RowEdits

/-!
# Lost updates of node rows

Every operation on a node reads and writes the whole row, so a write between another operation's
read and write is lost (`row_updates_lost`). `row_updates_serializable`: when there is none, any
interleaving of map requests with one other operation leaves the row of some serial order.
-/

namespace Crabscale.Control

open Rust Proto Policy Interaction Interaction.Program

/-! ## Writes of the node table -/

def rowView (nodeKey : NodeKey) (nodes : List Node) : Option Node :=
  nodes.find? (·.nodeKey == nodeKey)

def nodesDb (users : List User) (nodes : List Node) : Db :=
  if h : Tables.Valid { users, nodes } then { users, nodes, valid := h } else Db.empty

def writeNodes (users : List User) (nodeKey : NodeKey) : RowWrite → List Node → List Node
  | .put node, nodes => ((nodesDb users nodes).upsertNode node).2.nodes
  | .delete, nodes => ((nodesDb users nodes).deleteNode nodeKey).2.nodes

namespace Db

variable {a b db : Db}

theorem valid_nodes_iff (db : Db) (nodes : List Node) (last : Nat) :
    Tables.Valid { db.toTables with nodes, lastInsertRowid := last } ↔
      Tables.Valid { users := db.users, nodes } := by
  constructor
  · intro h
    exact { h with
      loginIds := List.nodup_nil
      loginSubjects := List.nodup_nil
      loginUsers := nofun
      keyIds := List.nodup_nil
      keyPrefixes := List.nodup_nil
      keyUsers := nofun
      pendingIds := List.nodup_nil
      sshAuthIds := List.nodup_nil }
  · intro h
    exact { db.valid with
      nodeIds := h.nodeIds
      nodeIdsPos := h.nodeIdsPos
      stableIds := h.stableIds
      nodeKeys := h.nodeKeys
      nodeUsers := h.nodeUsers }

def SameNodes (a b : Db) : Prop := a.users = b.users ∧ a.nodes = b.nodes

theorem same_nodes_db (db : Db) : SameNodes db (nodesDb db.users db.nodes) := by
  rw [nodesDb, dif_pos ((valid_nodes_iff db _ _).mp db.valid)]
  exact ⟨rfl, rfl⟩

def SameResult : Except StoreError Db → Except StoreError Db → Prop
  | .ok a, .ok b => SameNodes a b
  | .error _, .error _ => True
  | _, _ => False

theorem SameResult.cases {r r' : Except StoreError Db} (h : SameResult r r') :
    (∃ e e', r = .error e ∧ r' = .error e') ∨ ∃ a b, r = .ok a ∧ r' = .ok b ∧ SameNodes a b := by
  cases r <;> cases r' <;> first | exact h.elim | exact .inl ⟨_, _, rfl, rfl⟩ | skip
  exact .inr ⟨_, _, rfl, rfl, h⟩

theorem commit_same_nodes (h : a.users = b.users) (nodes : List Node) (last last' : Nat) :
    SameResult (commit { a.toTables with nodes, lastInsertRowid := last })
      (commit { b.toTables with nodes, lastInsertRowid := last' }) := by
  have hiff := valid_nodes_iff a nodes last
  rw [h, ← valid_nodes_iff b nodes last'] at hiff
  unfold commit
  split
  case isTrue ha =>
    rw [dif_pos (hiff.mp ha)]
    exact ⟨h, rfl⟩
  case isFalse ha =>
    rw [dif_neg (mt hiff.mpr ha)]
    trivial

theorem get_node_same (h : SameNodes a b) (nodeKey : NodeKey) :
    a.getNodeByNodeKey nodeKey = b.getNodeByNodeKey nodeKey := by
  simp only [getNodeByNodeKey, h.2]

theorem insert_or_update_same (h : SameNodes a b) (node : Node) :
    SameResult (a.insertOrUpdateNode node) (b.insertOrUpdateNode node) := by
  unfold insertOrUpdateNode
  rw [get_node_same h, h.2]
  split <;> exact commit_same_nodes h.1 _ _ _

theorem upsert_same (h : SameNodes a b) {node : Node} (hid : node.id ≠ 0) :
    (a.upsertNode node).2.nodes = (b.upsertNode node).2.nodes := by
  unfold upsertNode
  obtain ⟨_, _, ha, hb⟩ | ⟨a₁, b₁, ha, hb, hfirst⟩ := (insert_or_update_same h node).cases
  · simp only [ha, hb, h.2]
  simp only [ha, hb, hid, if_false]
  split
  case isFalse => exact hfirst.2
  case isTrue =>
    have hsecond : SameResult (a₁.setStableId node.id (stableIdOf node.id))
        (b₁.setStableId node.id (stableIdOf node.id)) := by
      unfold setStableId
      rw [hfirst.2]
      exact commit_same_nodes hfirst.1 _ _ _
    obtain ⟨_, _, ha, hb⟩ | ⟨_, _, ha, hb, hsame⟩ := hsecond.cases
    · simp only [ha, hb, hfirst.2]
    · simp only [ha, hb, hsame.2]

theorem delete_same (h : SameNodes a b) (nodeKey : NodeKey) :
    (a.deleteNode nodeKey).2.nodes = (b.deleteNode nodeKey).2.nodes := by
  unfold deleteNode statement
  rw [get_node_same h, h.2]
  split
  case isFalse => exact h.2
  case isTrue =>
    obtain ⟨_, _, ha, hb⟩ | ⟨_, _, ha, hb, hsame⟩ := (commit_same_nodes h.1
      (b.nodes.filter (·.nodeKey ≠ nodeKey)) a.lastInsertRowid b.lastInsertRowid).cases
    · simp only [ha, hb, h.2]
    · simp only [ha, hb, hsame.2]

theorem nodes_upsert (db : Db) (nodeKey : NodeKey) {node : Node} (hid : node.id ≠ 0) :
    (db.upsertNode node).2.nodes = writeNodes db.users nodeKey (.put node) db.nodes :=
  upsert_same (same_nodes_db db) hid

theorem nodes_delete_eq (db : Db) (nodeKey : NodeKey) :
    (db.deleteNode nodeKey).2.nodes = writeNodes db.users nodeKey .delete db.nodes :=
  delete_same (same_nodes_db db) nodeKey

theorem get_node_upsert {nodeKey : NodeKey} (h : (db.getNodeByNodeKey nodeKey).isSome)
    (node : Node) : ((db.upsertNode node).2.getNodeByNodeKey nodeKey).isSome := by
  have hkeys (db' : Db) : (db'.getNodeByNodeKey nodeKey).isSome ↔
      ∃ row ∈ db'.nodes, row.nodeKey = nodeKey := by simp [getNodeByNodeKey]
  have hfirst : ∀ db₁, db.insertOrUpdateNode node = .ok db₁ →
      ∃ row ∈ db₁.nodes, row.nodeKey = nodeKey := by
    obtain ⟨row, hrow, hkey⟩ := (hkeys db).mp h
    intro db₁ hok
    cases hlookup : db.getNodeByNodeKey node.nodeKey with
    | some before =>
      rw [insert_or_update_existing hlookup] at hok
      rw [congrArg Tables.nodes (commit_ok hok)]
      refine ⟨_, List.mem_map_of_mem hrow, ?_⟩
      split
      case isTrue hsame => exact hsame.symm.trans hkey
      case isFalse => exact hkey
    | none =>
      rw [insert_or_update_new hlookup] at hok
      rw [congrArg Tables.nodes (commit_ok hok)]
      exact ⟨row, List.mem_append_left _ hrow, hkey⟩
  obtain hsame | ⟨db₁, hok, hsame | ⟨id, stableId, hset⟩⟩ := upsert_cases db node
  · rwa [hsame]
  · rw [hsame, hkeys]
    exact hfirst db₁ hok
  · obtain ⟨row, hrow, hkey⟩ := hfirst db₁ hok
    rw [hkeys, nodes_set_stable_id hset]
    refine ⟨_, List.mem_map_of_mem hrow, ?_⟩
    split <;> exact hkey

end Db

/-! ## Rows and their edits -/

section Edits

variable {cp : ControlPlane} {w₀ : World}

theorem edit_row_same_row {op : Op} {row node : Node}
    (h : op.editRow cp w₀ row = some (.put node)) : SameRow node row := by
  have hlogout (h : logoutEdit row = some (.put node)) : SameRow node row := by
    unfold logoutEdit at h
    split at h
    · cases h
    split at h <;> cases h
    exact ⟨rfl, rfl, rfl, rfl⟩
  cases op with
  | handleMap machineKey request =>
    simp only [Op.editRow, mapEdit, Option.ite_none_left_eq_some, Option.ite_none_right_eq_some,
      Option.map_eq_some_iff] at h
    obtain ⟨_, _, _, written, hrow, hput⟩ := h
    cases hput
    exact map_row_same_row hrow
  | logout machineKey key =>
    simp only [Op.editRow, Option.ite_none_right_eq_some] at h
    exact hlogout h.2
  | approveRoute key route | disapproveRoute key route =>
    obtain ⟨canonical, _, h⟩ := Option.bind_eq_some_iff.mp h
    split at h <;> cases h
    exact ⟨rfl, rfl, rfl, rfl⟩
  | register machineKey request =>
    simp only [Op.editRow, registerEdit] at h
    split at h
    · cases h
    split at h
    · exact hlogout h
    split at h
    · cases h
    split at h
    · unfold reloginEdit ControlPlane.retagResult at h
      cases hretag : cp.retag (w₀.ownerLogin row) row (requestedTags request.hostinfo) with
      | none =>
        rw [hretag] at h
        cases h
      | some updated =>
        rw [hretag] at h
        dsimp only at h
        split at h <;> cases h
        rename_i hresult
        rw [Except.ok.injEq, Prod.mk.injEq] at hresult
        exact hresult.2 ▸ retag_same_row hretag
    · unfold reauthorizeEdit at h
      split at h <;> cases h
      exact ⟨rfl, rfl, rfl, rfl⟩
  | _ => cases h

theorem map_edit_not_delete {op : Op} {row : Node} (hmap : op.isMap = true) :
    op.editRow cp w₀ row ≠ some .delete := by
  cases op with
  | handleMap machineKey request => simp [Op.editRow, mapEdit]
  | _ => cases hmap

end Edits

/-! ## Operations on one row -/

section Invariant

variable {ι : Type}

/-- What interleaved operations keep: users, logins and the clock stand still; keys and the row only
go when an operation that is no map request has written; and the node table is what the operations
that are done with the row give in some order. -/
structure RowInv (cp : ControlPlane) (w₀ : World) (nodeKey : NodeKey) (ops : ι → Op) (start : World)
    (accesses : ι → Access (Option Node)) (w : World) : Prop where
  users : w.db.users = w₀.db.users
  logins : w.db.logins = w₀.db.logins
  clock : w.env.clock = w₀.env.clock
  keys : w.db.preAuthKeys = start.db.preAuthKeys ∨ ∃ i, (ops i).isMap = false ∧ accesses i = .wrote
  row : (start.db.getNodeByNodeKey nodeKey).isSome →
    (w.db.getNodeByNodeKey nodeKey).isSome ∨ ∃ i, (ops i).isMap = false ∧ accesses i = .wrote
  serial : ∃ order, Serial (rowView nodeKey) (fun i => (ops i).edit cp w₀)
    (writeNodes w₀.db.users nodeKey) start.db.nodes accesses order w.db.nodes

/-- The clock stands still, all but one operation are map requests, and the other one starts with
the keys of `w₀` and the row there. -/
structure Setting (w₀ : World) (nodeKey : NodeKey) (ops : ι → Op) (start : World) : Prop where
  clock : ∀ m n, w₀.env.clock m = w₀.env.clock n
  one : ∀ i j, (ops i).isMap = false → (ops j).isMap = false → i = j
  keys : ∀ i, (ops i).isMap = false → start.db.preAuthKeys = w₀.db.preAuthKeys
  row : ∀ i, (ops i).isMap = false → (start.db.getNodeByNodeKey nodeKey).isSome

variable {cp : ControlPlane} {w₀ start w : World} {nodeKey : NodeKey} {ops : ι → Op}
  {accesses : ι → Access (Option Node)} {i : ι} {c : Call}

theorem RowInv.expects (hinv : RowInv cp w₀ nodeKey ops start accesses w)
    (hset : Setting w₀ nodeKey ops start)
    (hallowed : (rowProtocol cp w₀ nodeKey (ops i)).allowed (accesses i) c) :
    (rowProtocol cp w₀ nodeKey (ops i)).expects (accesses i) c (handler c w).1 := by
  have halone (hmap : (ops i).isMap = false) (hφ : accesses i ≠ .wrote) :
      ¬∃ j, (ops j).isMap = false ∧ accesses j = .wrote := by
    rintro ⟨j, hj, hwrote⟩
    rw [hset.one j i hj hmap] at hwrote
    exact hφ hwrote
  cases c with
  | memory c => trivial
  | env c =>
    cases c with
    | now =>
      change w.env.clock w.env.position = w₀.env.clock w₀.env.position
      rw [hinv.clock]
      exact hset.clock _ _
    | _ => trivial
  | store c =>
    cases c with
    | getUser id =>
      change Except.ok (w.db.getUser id) = .ok (w₀.db.getUser id)
      simp only [Db.getUser, hinv.users]
    | getLogin id =>
      change Except.ok (w.db.getLogin id) = .ok (w₀.db.getLogin id)
      simp only [Db.getLogin, hinv.logins]
    | getPreAuthKey keyPrefix =>
      intro hφ
      have hmap := hallowed hφ
      have hkeys := (hinv.keys.resolve_right (halone hmap hφ)).trans (hset.keys i hmap)
      change Except.ok (w.db.getPreAuthKey keyPrefix) = .ok (w₀.db.getPreAuthKey keyPrefix)
      simp only [Db.getPreAuthKey, hkeys]
    | getNodeByNodeKey asked =>
      intro hφ
      cases hallowed hφ
      refine ⟨_, rfl, fun row hrow => (Db.get_node_by_node_key_eq_some.mp hrow).2,
        fun hmap => ?_⟩
      exact (hinv.row (hset.row i hmap)).resolve_right (halone hmap (by rw [hφ]; rintro ⟨⟩))
    | _ => trivial

theorem allowed_writes {op : Op} {φ : Access (Option Node)}
    (hallowed : (rowProtocol cp w₀ nodeKey op).allowed φ c) :
    c.writes ≠ some .users ∧ c.writes ≠ some .logins ∧
      (c.writes = some .preAuthKeys → φ = .wrote ∧ op.isMap = false) := by
  cases c with
  | memory c => exact ⟨nofun, nofun, nofun⟩
  | env c => exact ⟨nofun, nofun, nofun⟩
  | store c =>
    cases c with
    | createUser | updateUserDisplayName | createLogin | createPreAuthKey | revokePreAuthKey =>
      exact hallowed.elim
    | markPreAuthKeyUsed id => exact ⟨nofun, nofun, fun _ => hallowed⟩
    | _ => exact ⟨nofun, nofun, nofun⟩

theorem next_wrote {op : Op} (answer : signature.Answer c) :
    (rowProtocol cp w₀ nodeKey op).next .wrote c answer = .wrote := by
  cases c with
  | memory c => rfl
  | env c => rfl
  | store c => cases c <;> first | rfl | (cases answer <;> rfl)

theorem clock_kept (c : Call) (w : World) : (handler c w).2.env.clock = w.env.clock := by
  cases c with
  | store c => rfl
  | memory c => cases c <;> rfl
  | env c => rfl

variable [DecidableEq ι]

theorem RowInv.serial_call (hinv : RowInv cp w₀ nodeKey ops start accesses w)
    (hallowed : (rowProtocol cp w₀ nodeKey (ops i)).allowed (accesses i) c)
    (halone : c.writes = some .nodes → ∀ j, j ≠ i →
      ¬Pending ((ops j).edit cp w₀) (accesses j)) :
    ∃ order, Serial (rowView nodeKey) (fun i => (ops i).edit cp w₀) (writeNodes w₀.db.users nodeKey)
      start.db.nodes (Function.update accesses i
        ((rowProtocol cp w₀ nodeKey (ops i)).next (accesses i) c (handler c w).1)) order
      (handler c w).2.db.nodes := by
  obtain ⟨order, hserial⟩ := hinv.serial
  -- A call that neither reads the row for the first time nor writes changes nothing.
  have hstill (hnext : (rowProtocol cp w₀ nodeKey (ops i)).next (accesses i) c (handler c w).1 =
      accesses i) (hnodes : c.writes ≠ some .nodes) : ∃ order, Serial (rowView nodeKey)
        (fun i => (ops i).edit cp w₀) (writeNodes w₀.db.users nodeKey) start.db.nodes
        (Function.update accesses i
          ((rowProtocol cp w₀ nodeKey (ops i)).next (accesses i) c (handler c w).1)) order
        (handler c w).2.db.nodes := by
    rw [hnext, Function.update_eq_self, (c.same_but w).nodes hnodes]
    exact ⟨order, hserial⟩
  -- The row that a pending operation read is still there, so it has an id.
  have hcurrent {row : Node} {written : RowWrite} (hsaw : accesses i = .saw (some row))
      (hedit : (ops i).editRow cp w₀ row = some written) : row ∈ w.db.nodes :=
    (Db.get_node_by_node_key_eq_some.mp
      (hserial.current i _ hsaw
        (by rw [show (ops i).edit cp w₀ (some row) = _ from hedit]; nofun)).symm).1
  cases c with
  | memory c => exact hstill rfl nofun
  | env c => exact hstill rfl nofun
  | store c =>
    cases c with
    | createUser | updateUserDisplayName | createLogin | createPreAuthKey | revokePreAuthKey =>
      exact hallowed.elim
    | getNodeByNodeKey asked =>
      cases hφ : accesses i with
      | start =>
        cases hallowed hφ
        exact hserial.read hφ
      | saw seen => exact hφ ▸ hstill (by rw [hφ]; rfl) nofun
      | wrote => exact hφ ▸ hstill (by rw [hφ]; rfl) nofun
    | upsertNode node =>
      obtain ⟨row, hsaw, hedit⟩ := hallowed
      have hid : node.id ≠ 0 := by
        rw [(edit_row_same_row hedit).id]
        exact (w.db.valid.nodeIdsPos row (hcurrent hsaw hedit)).ne'
      have hwrite := hserial.write hsaw hedit (halone rfl)
      rw [← hinv.users, ← Db.nodes_upsert w.db nodeKey hid] at hwrite
      rw [← hinv.users]
      exact ⟨_, hwrite⟩
    | deleteNode deleted =>
      obtain ⟨rfl, row, hsaw, hedit⟩ := hallowed
      have hwrite := hserial.write hsaw hedit (halone rfl)
      rw [← hinv.users, ← Db.nodes_delete_eq w.db deleted] at hwrite
      rw [← hinv.users]
      exact ⟨_, hwrite⟩
    | _ => exact hstill rfl nofun

theorem RowInv.call (hinv : RowInv cp w₀ nodeKey ops start accesses w)
    (hallowed : (rowProtocol cp w₀ nodeKey (ops i)).allowed (accesses i) c)
    (halone : c.writes = some .nodes → ∀ j, j ≠ i →
      ¬Pending ((ops j).edit cp w₀) (accesses j)) :
    RowInv cp w₀ nodeKey ops start (Function.update accesses i
      ((rowProtocol cp w₀ nodeKey (ops i)).next (accesses i) c (handler c w).1))
        (handler c w).2 := by
  obtain ⟨husers, hlogins, hkeys⟩ := allowed_writes hallowed
  have hsame := c.same_but w
  have hstays : (∃ j, (ops j).isMap = false ∧ accesses j = .wrote) →
      ∃ j, (ops j).isMap = false ∧ Function.update accesses i
        ((rowProtocol cp w₀ nodeKey (ops i)).next (accesses i) c (handler c w).1) j = .wrote := by
    rintro ⟨j, hj, hwrote⟩
    refine ⟨j, hj, ?_⟩
    obtain rfl | hne := eq_or_ne j i
    · rw [Function.update_self, hwrote, next_wrote]
    · rwa [Function.update_of_ne hne]
  refine ⟨(hsame.users husers).trans hinv.users, (hsame.logins hlogins).trans hinv.logins,
    (clock_kept c w).trans hinv.clock, ?_, fun hstart => ?_, hinv.serial_call hallowed halone⟩
  · by_cases hwrites : c.writes = some .preAuthKeys
    · obtain ⟨hwrote, hmap⟩ := hkeys hwrites
      exact .inr (hstays ⟨i, hmap, hwrote⟩)
    · rw [hsame.preAuthKeys hwrites]
      exact hinv.keys.imp_right hstays
  · obtain hnodes | ⟨deleted, rfl⟩ | ⟨node, rfl⟩ := c.nodes_cases w
    · rw [Db.getNodeByNodeKey, hnodes]
      exact (hinv.row hstart).imp_right hstays
    · obtain ⟨-, row, -, hedit⟩ := hallowed
      refine .inr ⟨i, ?_, Function.update_self ..⟩
      exact Bool.eq_false_of_not_eq_true fun hmap => map_edit_not_delete hmap hedit
    · exact (hinv.row hstart).imp (fun hrow => Db.get_node_upsert hrow node) hstays

end Invariant

/-! ## One operation after the other -/

section Serially

variable {cp : ControlPlane} {w₀ w : World} {nodeKey : NodeKey}

/-- Users, logins and the clock are those of `w₀`. -/
structure Calm (w₀ w : World) : Prop where
  users : w.db.users = w₀.db.users
  logins : w.db.logins = w₀.db.logins
  clock : w.env.clock = w₀.env.clock

/-- An operation with nothing in between does to the node table what its edit says; a map request
keeps the keys and the row. -/
theorem exec_edit {op : Op} (hboot : Bootstrapped cp w₀.db) (hop : op.OnRow nodeKey)
    (hset : Setting w₀ nodeKey (fun _ : Unit => op) w) (hcalm : Calm w₀ w) :
    Calm w₀ (op.exec cp w) ∧
      (op.exec cp w).db.nodes = effect (rowView nodeKey) (fun _ : Unit => op.edit cp w₀)
        (writeNodes w₀.db.users nodeKey) w.db.nodes () ∧
      (op.isMap = true → (op.exec cp w).db.preAuthKeys = w.db.preAuthKeys ∧
        ((w.db.getNodeByNodeKey nodeKey).isSome →
          ((op.exec cp w).db.getNodeByNodeKey nodeKey).isSome)) := by
  have hstart : RowInv cp w₀ nodeKey (fun _ : Unit => op) w (fun _ => .start) w :=
    ⟨hcalm.users, hcalm.logins, hcalm.clock, .inl rfl, fun h => .inl h, [], serial_start _⟩
  obtain ⟨φ, hinv, hend⟩ := (Op.obeys hboot hop).run
    (I := fun φ w' => RowInv cp w₀ nodeKey (fun _ : Unit => op) w (fun _ => φ) w')
    (fun φ w' c hinv hallowed => by
      refine ⟨hinv.expects (i := ()) hset hallowed, ?_⟩
      have hcall := hinv.call (i := ()) hallowed fun _ j hne => (hne rfl).elim
      rwa [Function.update_eq_const_of_subsingleton] at hcall) hstart
  change RowInv cp w₀ nodeKey (fun _ : Unit => op) w (fun _ => φ) (op.exec cp w) at hinv
  have hended : MayEnd cp w₀ op φ := by
    generalize ((op.program cp).run handler w).1 = result at hend
    cases result <;> exact hend
  refine ⟨⟨hinv.users, hinv.logins, hinv.clock⟩, ?_, fun hmap => ?_⟩
  · obtain ⟨order, hserial⟩ := hinv.serial
    obtain ⟨order, hnodup, hall, hvalue⟩ := hserial.complete fun _ => hended
    have horder : order = [()] := by
      match order, hnodup, hall () with
      | [()], _, _ => rfl
      | () :: () :: _, hnodup, _ => simp at hnodup
    rw [hvalue, horder]
    rfl
  · have hnone : ¬∃ i : Unit, op.isMap = false ∧ φ = .wrote := by
      rintro ⟨_, hnot, _⟩
      rw [hmap] at hnot
      cases hnot
    exact ⟨hinv.keys.resolve_right hnone, fun hrow => (hinv.row hrow).resolve_right hnone⟩

variable {ι : Type} {ops : ι → Op}

/-- The operations one after the other. -/
def serially (cp : ControlPlane) (ops : ι → Op) (order : List ι) (w : World) : World :=
  order.foldl (fun w i => (ops i).exec cp w) w

theorem nodes_serially (hboot : Bootstrapped cp w₀.db) (hops : ∀ i, (ops i).OnRow nodeKey)
    (hclock : ∀ m n, w₀.env.clock m = w₀.env.clock n)
    (hone : ∀ i j, (ops i).isMap = false → (ops j).isMap = false → i = j) {order : List ι}
    (hnodup : order.Nodup) (hcalm : Calm w₀ w) (hready : ∀ i ∈ order, (ops i).isMap = false →
      w.db.preAuthKeys = w₀.db.preAuthKeys ∧ (w.db.getNodeByNodeKey nodeKey).isSome) :
    (serially cp ops order w).db.nodes = order.foldl (effect (rowView nodeKey)
      (fun i => (ops i).edit cp w₀) (writeNodes w₀.db.users nodeKey)) w.db.nodes := by
  induction order generalizing w with
  | nil => rfl
  | cons i order ih =>
    rw [List.nodup_cons] at hnodup
    have hi := hready i List.mem_cons_self
    obtain ⟨hcalm', hnodes, hmap⟩ := exec_edit hboot (hops i) (w := w)
      ⟨hclock, fun _ _ _ _ => rfl, fun _ h => (hi h).1, fun _ h => (hi h).2⟩ hcalm
    have hrest := ih hnodup.2 hcalm' fun j hj hother => by
      -- The other operation is still to come, so this one was a map request.
      have hthis : (ops i).isMap = true := by
        by_contra hnot
        exact hnodup.1 (hone j i hother (Bool.eq_false_of_not_eq_true hnot) ▸ hj)
      obtain ⟨hkeys, hrow⟩ := hready j (List.mem_cons_of_mem i hj) hother
      exact ⟨(hmap hthis).1.trans hkeys, (hmap hthis).2 hrow⟩
    rw [hnodes] at hrest
    exact hrest

end Serially

/-! ## Interleavings -/

section Interleaved

variable {ι : Type}

abbrev RowOps (ι : Type) : Type := Pool signature ControlError Unit (Access (Option Node)) ι World

/-- Operations that are about to start. -/
def rowOps (cp : ControlPlane) (ops : ι → Op) (w : World) : RowOps ι where
  threads i := (ops i).program cp
  phases _ := .start
  state := w

def rowProtocols (cp : ControlPlane) (w₀ : World) (nodeKey : NodeKey) (ops : ι → Op) (i : ι) :
    Protocol signature (Access (Option Node)) :=
  rowProtocol cp w₀ nodeKey (ops i)

def NotBetween (cp : ControlPlane) (w₀ : World) (ops : ι → Op) (pool : RowOps ι) (i : ι)
    (c : Call) :
    Prop :=
  c.writes = some .nodes → ∀ j, j ≠ i → ¬Pending ((ops j).edit cp w₀) (pool.phases j)

instance [Fintype ι] [DecidableEq ι] (cp : ControlPlane) (w₀ : World) (ops : ι → Op)
    (pool : RowOps ι) (i : ι) (c : Call) : Decidable (NotBetween cp w₀ ops pool i c) :=
  inferInstanceAs (Decidable (_ → _))

/-- Under a clock that stands still, any interleaving of map requests with one other operation on
the same row in which no write falls between another operation's read and write leaves the row that
some serial order leaves. -/
theorem row_updates_serializable [Fintype ι] [DecidableEq ι] {cp : ControlPlane} {w : World}
    {nodeKey : NodeKey} {ops : ι → Op} (hclock : ∀ m n, w.env.clock m = w.env.clock n)
    (hboot : Bootstrapped cp w.db) (hrow : (w.db.getNodeByNodeKey nodeKey).isSome)
    (hops : ∀ i, (ops i).OnRow nodeKey)
    (hone : ∀ i j, (ops i).isMap = false → (ops j).isMap = false → i = j) {schedule : List ι}
    (hmeets : (rowOps cp ops w).Meets handler (rowProtocols cp w nodeKey ops)
      (NotBetween cp w ops) schedule)
    (hended : ∀ i, ((rowOps cp ops w).run handler
    (rowProtocols cp w nodeKey ops) schedule).ended i =
      true) :
    ∃ order : List ι, order.Nodup ∧ (∀ i, i ∈ order) ∧
      ((rowOps cp ops w).run handler (rowProtocols cp w nodeKey ops)
          schedule).state.db.getNodeByNodeKey nodeKey =
        (serially cp ops order w).db.getNodeByNodeKey nodeKey := by
  have hset : Setting w nodeKey ops w := ⟨hclock, hone, fun _ _ => rfl, fun _ _ => hrow⟩
  have hstart : RowInv cp w nodeKey ops w (fun _ => .start) w :=
    ⟨rfl, rfl, rfl, .inl rfl, fun h => .inl h, [], serial_start _⟩
  obtain ⟨hobeys, hinv⟩ := Pool.run_invariant (E := fun i => MayEnd cp w (ops i))
    (I := fun pool => RowInv cp w nodeKey ops w pool.phases pool.state)
    (fun pool hobeys hinv i c next hthread hcond =>
      ⟨hinv.expects hset (hobeys.allowed hthread), hinv.call (hobeys.allowed hthread) hcond⟩)
    (fun i => Op.obeys hboot (hops i)) hstart hmeets
  obtain ⟨order, hserial⟩ := hinv.serial
  obtain ⟨order, hnodup, hall, hvalue⟩ := hserial.complete fun i => hobeys.ended (hended i)
  refine ⟨order, hnodup, hall, ?_⟩
  have hnodes := nodes_serially hboot hops hclock hone hnodup ⟨rfl, rfl, rfl⟩
    fun _ _ _ => ⟨rfl, hrow⟩
  exact congrArg (rowView nodeKey) (hvalue.trans hnodes.symm)

end Interleaved

/-- A machine asks for a map of its node while the node is logged out. -/
def mapAndLogout (key : Nat) (second : Bool) : Op :=
  if second then .logout ⟨key⟩ ⟨key⟩ else .handleMap ⟨key⟩ { version := 113, nodeKey := ⟨key⟩ }

def mapAndLogoutUnder (key : Nat) (w : World) (schedule : List Bool) : RowOps Bool :=
  (rowOps openServer (mapAndLogout key) w).run handler
    (rowProtocols openServer w ⟨key⟩ (mapAndLogout key)) schedule

def logoutAfterWrite : List Bool :=
  List.replicate 3 false ++ List.replicate 3 true ++ List.replicate 30 false

theorem streaming_bootstrapped : Bootstrapped openServer streaming.db where
  user := by decide +kernel
  login := by decide +kernel
  key keyPrefix secret h := by
    have hparsed : parseAuthKey openServer.config.authKey = some ("test", "secret") := by
      decide +kernel
    rw [hparsed] at h
    cases h
    decide +kernel

/-- A logout that starts when the map request has written the row is as good as one that comes
after it. -/
theorem row_updates_serializable_after_write :
    ∃ order : List Bool, order.Nodup ∧ (∀ i, i ∈ order) ∧
      (mapAndLogoutUnder 1 streaming logoutAfterWrite).state.db.getNodeByNodeKey ⟨1⟩ =
        (serially openServer (mapAndLogout 1) order streaming).db.getNodeByNodeKey ⟨1⟩ :=
  row_updates_serializable (fun _ _ => rfl) streaming_bootstrapped (by decide +kernel)
    (fun i => by cases i <;> rfl) (by decide +kernel) (by decide +kernel) (by decide +kernel)

def logoutBetween : List Bool :=
  List.replicate 1 false ++ List.replicate 3 true ++ List.replicate 30 false

/-- The row is what neither serial order leaves. -/
def Lost (key : Nat) (w : World) (schedule : List Bool) : Prop :=
  (∀ i, (mapAndLogoutUnder key w schedule).ended i = true) ∧
    ∀ order ∈ [[false, true], [true, false]],
      (mapAndLogoutUnder key w schedule).state.db.getNodeByNodeKey ⟨key⟩ ≠
        (serially openServer (mapAndLogout key) order w).db.getNodeByNodeKey ⟨key⟩

instance (key : Nat) (w : World) (schedule : List Bool) : Decidable (Lost key w schedule) :=
  inferInstanceAs (Decidable (_ ∧ _))

def ephemeralNode : World :=
  runOps openServer
    [.createPreAuthKey "temp" true true none none,
      .register ⟨5⟩
        { version := 113, nodeKey := ⟨5⟩, auth := some { authKey := "hskey-auth-temp-token" } }]
    (openServer.withStore Db.empty stillEnv)

/-- A map request undoes a logout that returned in between, and brings a node back that the logout
deleted. -/
theorem row_updates_lost :
    Lost 1 streaming logoutBetween ∧ Lost 5 ephemeralNode logoutBetween ∧
      ((mapAndLogoutUnder 1 streaming logoutBetween).state.db.getNodeByNodeKey ⟨1⟩).map
        Node.machineAuthorized = some true ∧
      ((mapAndLogoutUnder 5 ephemeralNode logoutBetween).state.db.getNodeByNodeKey ⟨5⟩).isSome := by
  decide +kernel

end Crabscale.Control
