import Crabscale.Control.Acts
import Crabscale.Control.Settings

/-!
# Node keys and their machines

A row keeps the machine of its node key, except when a followup completes and writes a new node over
the row. `machine_key_kept` says that this is the only way, in all runs from any store.
-/

namespace Crabscale.Control

open Rust Proto Policy Interaction

/-! ## Runs -/

/-- Runs of operations that each meet a condition in the state in which they start, through states
that all have a property. -/
inductive Runs (cp : ControlPlane) (C : World → Op → Prop) (P : World → Prop) (start : World) :
    World → Prop where
  | refl (hstart : P start) : Runs cp C P start start
  | step {w : World} {op : Op} : Runs cp C P start w → C w op → P (op.exec cp w) →
      Runs cp C P start (op.exec cp w)

theorem Runs.last {cp : ControlPlane} {C : World → Op → Prop} {P : World → Prop} {start w : World}
    (h : Runs cp C P start w) : P w := by
  cases h with
  | refl hstart => exact hstart
  | step _ _ hlast => exact hlast

/-! ## Binding -/

section Binding

variable {cp : ControlPlane} {nodeKey : NodeKey} {machineKey : MachineKey}

def BoundTo (nodeKey : NodeKey) (machineKey : MachineKey) (db : Db) : Prop :=
  ∀ row ∈ db.nodes, row.nodeKey = nodeKey → row.machineKey = machineKey

theorem BoundTo.call {Takes : Node → Node → Prop} {db₀ : Db}
    (hkey : ∃ row ∈ db₀.nodes, row.nodeKey = nodeKey)
    (htakes : ∀ row node, Takes row node → row.machineKey = node.machineKey) {w : World} {c : Call}
    (hbound : BoundTo nodeKey machineKey w.db) (hc : Allowed cp Takes db₀ w c) :
    BoundTo nodeKey machineKey (handler c w).2.db := by
  intro row hrow hrowKey
  obtain ⟨stored, hstored, stableId, rfl⟩ | ⟨node, id, stableId, rfl, rfl⟩ := Call.mem_nodes hrow
  · exact hbound stored hstored hrowKey
  · change node.nodeKey = nodeKey at hrowKey
    change node.machineKey = machineKey
    cases hc with
    | rewrite hbefore hsame =>
      rw [hsame.machineKey]
      exact hbound _ hbefore (hsame.nodeKey.symm.trans hrowKey)
    | create hsameNodes hnew _ _ =>
      obtain ⟨held, hheld, hheldKey⟩ := hkey
      exact (hnew held (hsameNodes ▸ hheld) (hheldKey.trans hrowKey.symm)).elim
    | takeover hbefore hbeforeKey htaken _ _ _ =>
      rw [← htakes _ _ htaken]
      exact hbound _ hbefore (hbeforeKey.trans hrowKey)

def OwnFollowups (w : World) : Op → Prop
  | .register machineKey request => ∀ row, Completes w.db machineKey request row →
      row.machineKey = machineKey
  | _ => True

theorem BoundTo.step {w : World} {op : Op} (hkey : ∃ row ∈ w.db.nodes, row.nodeKey = nodeKey)
    (hown : OwnFollowups w op) (hbound : BoundTo nodeKey machineKey w.db) :
    BoundTo nodeKey machineKey (op.exec cp w).db := by
  refine Op.invariant (fun w' c hw' hc => hw'.call hkey (fun row node htaken => ?_) hc) hbound
  cases op with
  | register machineKey request => exact (hown row htaken.2).trans htaken.1.symm
  | _ => exact htaken.elim

/-- In every run in which followups only complete over rows of their own machine, a node key stays
bound to its machine as long as its row exists. -/
theorem machine_key_kept {w w' : World}
    (hrun : Runs cp OwnFollowups (fun w => (w.db.getNodeByNodeKey nodeKey).isSome) w w')
    {row row' : Node} (hrow : w.db.getNodeByNodeKey nodeKey = some row)
    (hrow' : w'.db.getNodeByNodeKey nodeKey = some row') : row'.machineKey = row.machineKey := by
  have hbound : BoundTo nodeKey row.machineKey w'.db := by
    clear hrow'
    induction hrun with
    | refl _ =>
      intro other hother hkey
      rw [Db.get_node_by_node_key_eq_some.mpr ⟨hother, hkey⟩] at hrow
      cases hrow
      rfl
    | step hbefore hown _ ih =>
      obtain ⟨held, hheld⟩ := Option.isSome_iff_exists.mp hbefore.last
      exact ih.step ⟨held, Db.get_node_by_node_key_eq_some.mp hheld⟩ hown
  obtain ⟨hmem, hkey⟩ := Db.get_node_by_node_key_eq_some.mp hrow'
  exact hbound row' hmem hkey

end Binding

def askForMap : Op := .handleMap ⟨1⟩ { version := 113, nodeKey := ⟨1⟩ }

theorem first_node_streaming : streaming.db.getNodeByNodeKey ⟨1⟩ = some (firstNode streaming) := by
  decide +kernel

theorem first_node_asked :
    (askForMap.exec openServer streaming).db.getNodeByNodeKey ⟨1⟩ =
      some (firstNode (askForMap.exec openServer streaming)) := by
  decide +kernel

/-- A map request keeps the machine of the first node's key. -/
theorem machine_key_kept_streaming :
    (firstNode (askForMap.exec openServer streaming)).machineKey =
      (firstNode streaming).machineKey := by
  have hasked : OwnFollowups streaming askForMap := trivial
  exact machine_key_kept
    (.step (.refl (by rw [first_node_streaming]; rfl)) hasked (by rw [first_node_asked]; rfl))
    first_node_streaming first_node_asked

/-! ## A followup that takes a row over -/

def World.machineOf (w : World) (nodeKey : NodeKey) : Option MachineKey :=
  (w.db.getNodeByNodeKey nodeKey).map Node.machineKey

def runOps (cp : ControlPlane) (ops : List Op) (w : World) : World :=
  ops.foldl (fun w op => op.exec cp w) w

def registerFirst : Op := .register ⟨1⟩ (registerRequest 1)

def registerGuest (key : Nat) : Op :=
  .register ⟨key⟩
    { version := 113, nodeKey := ⟨key⟩, auth := some { authKey := "hskey-auth-guest-token" } }

def askFor (machine key : Nat) : Op := .register ⟨machine⟩ { version := 113, nodeKey := ⟨key⟩ }

def followUp (machine key : Nat) : Op :=
  .register ⟨machine⟩
    { version := 113, nodeKey := ⟨key⟩, followup := "https://tailnet.example/register/token" }

def approve : Op := .approvePending "token" "owner@example.com"

/-- The first machine asked for a node key, the second registered it with a pre-auth key, and then
the first one's registration was approved. -/
def contested : World :=
  runOps openServer [askFor 1 7, .register ⟨2⟩ (registerRequest 7), approve]
    (openServer.withStore Db.empty stillEnv)

/-- The first machine's followup takes the second machine's row over. -/
theorem machine_key_taken_over :
    contested.machineOf ⟨7⟩ = some ⟨2⟩ ∧
      ((followUp 1 7).exec openServer contested).machineOf ⟨7⟩ = some ⟨1⟩ := by
  decide +kernel

end Crabscale.Control
