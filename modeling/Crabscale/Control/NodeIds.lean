import Crabscale.Control.Verdicts

/-!
# What an id denotes

A new row gets the largest id in use plus one, so the id of a deleted row can be given to another
node. The id first has to be free (`Op.key_of_exec`), and what is kept by id elsewhere is about the
same node as long as no new node is registered under that id (`Op.key_or_none`).
-/

namespace Crabscale.Control

open Rust Proto Interaction

def Db.keyOf (db : Db) (id : Nat) : Option NodeKey := (db.getNodeById id).map Node.nodeKey

theorem Db.key_of_eq_some {db : Db} {id : Nat} {nodeKey : NodeKey} :
    db.keyOf id = some nodeKey ↔ ∃ row ∈ db.nodes, row.id = id ∧ row.nodeKey = nodeKey := by
  simp only [Db.keyOf, Option.map_eq_some_iff, Db.get_node_by_id_eq_some, and_assoc]

theorem Db.key_of_congr {db db' : Db} (h : db'.nodes = db.nodes) (id : Nat) :
    db'.keyOf id = db.keyOf id := by
  simp only [Db.keyOf, Db.getNodeById, h]

theorem Db.key_of_subset {db db' : Db} (h : db'.nodes ⊆ db.nodes) (id : Nat) :
    db'.keyOf id = db.keyOf id ∨ db'.keyOf id = none := by
  cases hafter : db'.keyOf id with
  | none => exact .inr rfl
  | some nodeKey =>
    obtain ⟨row, hrow, rfl, rfl⟩ := Db.key_of_eq_some.mp hafter
    exact .inl (Db.key_of_eq_some.mpr ⟨row, h hrow, rfl, rfl⟩).symm

def Db.nextId (db : Db) : Nat := nextRowid (db.nodes.map Node.id)

/-- The node key that a registration is about: the client's, or that of the registration it follows
up. -/
def Op.registers (w : World) : Op → Option NodeKey
  | .register _ request =>
    if request.followup = "" then some request.nodeKey
    else ((authIdFromFollowup request.followup).bind w.db.getPending).map
      PendingRegistration.nodeKey
  | _ => none

/-- The operation registers a node key that has no row. -/
def Op.Enrolls (op : Op) (w : World) : Prop :=
  ∃ nodeKey, op.registers w = some nodeKey ∧ w.db.getNodeByNodeKey nodeKey = none

/-- Every row is one that was there when the operation started, under the same id and key, or the
new row of a registration. -/
def RowsFrom (op : Op) (w₀ : World) (db : Db) : Prop :=
  ∀ row ∈ db.nodes, (∃ stored ∈ w₀.db.nodes, stored.id = row.id ∧ stored.nodeKey = row.nodeKey) ∨
    op.Enrolls w₀ ∧ row.id = w₀.db.nextId

variable {cp : ControlPlane} {op : Op} {w₀ w : World}

theorem NodeAct.enrolls {node : Node} (h : NodeAct cp op w₀ w node)
    (hnew : ∀ row ∈ w.db.nodes, row.nodeKey ≠ node.nodeKey) :
    op.Enrolls w₀ ∧ w.db.nodes = w₀.db.nodes := by
  cases h with
  | edit _ hrow hedit => exact absurd hedit.same.nodeKey.symm (hnew _ hrow)
  | reauthorize _ hrow _ _ _ _ hnode => exact absurd (by rw [hnode]) (hnew _ hrow)
  | @enroll machineKey request key _ _ _ hkey _ hnodes hmissing _ =>
    refine ⟨⟨request.nodeKey, ?_, Db.get_node_by_node_key_eq_none.mpr
      (hnodes ▸ hmissing)⟩, hnodes⟩
    rw [hkey.op]
    exact if_pos hkey.followup
  | @complete machineKey entry _ _ _ _ _ happroved _ hnodes _ _ hnode =>
    obtain ⟨request, authId, rfl, hauth, hentry⟩ := happroved.op
    subst hnode
    refine ⟨⟨entry.nodeKey, ?_, Db.get_node_by_node_key_eq_none.mpr (hnodes ▸ hnew)⟩, hnodes⟩
    show (if request.followup = "" then _ else _) = _
    rw [if_neg (auth_id_from_followup_ne_empty hauth), hauth, Option.bind_some, hentry,
      Option.map_some]

/-- A row after a call of an operation was there before, is a node in the place of the row with its
key, or is the new row of a registration. -/
theorem Acts.row_cases {c : Call} {row : Node} (hc : Acts cp op w₀ w c)
    (hrow : row ∈ (handler c w).2.db.nodes) :
    (∃ stored ∈ w.db.nodes, ∃ stableId, row = { stored with stableId }) ∨
      (∃ node, NodeAct cp op w₀ w node ∧ ∃ stored ∈ w.db.nodes, stored.nodeKey = node.nodeKey ∧
        ∃ stableId, row = { node with id := stored.id, stableId }) ∨
      op.Enrolls w₀ ∧ row.id = w₀.db.nextId := by
  obtain hstored | ⟨node, _, _, rfl, -⟩ := Call.mem_nodes hrow
  · exact .inl hstored
  obtain hstored | hover | ⟨hnew, stableId, rfl⟩ := Db.mem_upsert_cases hrow
  · exact .inl hstored
  · exact .inr (.inl ⟨node, hc, hover⟩)
  · -- A row is only added while the rows are those of the start.
    obtain ⟨henrolls, hsame⟩ := NodeAct.enrolls hc hnew
    exact .inr (.inr ⟨henrolls, by rw [Db.nextId, ← hsame]⟩)

theorem RowsFrom.call {c : Call} (h : RowsFrom op w₀ w.db) (hc : Acts cp op w₀ w c) :
    RowsFrom op w₀ (handler c w).2.db := by
  intro row hrow
  obtain ⟨stored, hstored, stableId, rfl⟩ | ⟨node, -, stored, hstored, hkey, stableId, rfl⟩
    | hnew :=
    hc.row_cases hrow
  · exact h stored hstored
  · show (∃ first ∈ w₀.db.nodes, first.id = stored.id ∧ first.nodeKey = node.nodeKey) ∨ _
    rw [← hkey]
    exact h stored hstored
  · exact .inr hnew

theorem Op.rows_from (op : Op) (w : World) : RowsFrom op w (op.exec cp w).db :=
  Op.keeps_world (I := fun w' => RowsFrom op w w'.db) (fun _ _ hw' hc => hw'.call hc)
    fun row hrow => .inl ⟨row, hrow, rfl, rfl⟩

/-- What an id denotes after an operation it denoted before, or it is that of a new row. -/
theorem Op.key_of_exec {id : Nat} {nodeKey : NodeKey}
    (h : (op.exec cp w).db.keyOf id = some nodeKey) :
    w.db.keyOf id = some nodeKey ∨ op.Enrolls w ∧ id = w.db.nextId := by
  obtain ⟨row, hrow, rfl, rfl⟩ := Db.key_of_eq_some.mp h
  exact (op.rows_from w row hrow).imp_left Db.key_of_eq_some.mpr

theorem Op.key_or_none {id : Nat} (h : op.Enrolls w → id ≠ w.db.nextId) :
    (op.exec cp w).db.keyOf id = w.db.keyOf id ∨ (op.exec cp w).db.keyOf id = none := by
  cases hafter : (op.exec cp w).db.keyOf id with
  | none => exact .inr rfl
  | some nodeKey =>
    obtain hbefore | ⟨henrolls, hid⟩ := Op.key_of_exec hafter
    · exact .inl hbefore.symm
    · exact absurd hid (h henrolls)

end Crabscale.Control
