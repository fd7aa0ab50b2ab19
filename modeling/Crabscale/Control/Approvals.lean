import Crabscale.Control.Reregister

/-!
# Approved routes

What is approved is the network that a route denotes, however it is written. `Approves` says that
the approved routes of a node are the networks whose last call was an approval; each call that
succeeds keeps it (`approvals_are_networks`).
-/

namespace Crabscale.Control

open Rust Proto Policy Interaction Interaction.Program ControlPlane

inductive RouteCall where
  | approve (route : String)
  | disapprove (route : String)
  deriving DecidableEq

namespace RouteCall

def route : RouteCall → String
  | approve route | disapprove route => route

def approves : RouteCall → Bool
  | approve _ => true
  | disapprove _ => false

def make (nodeKey : NodeKey) : RouteCall → ControlM Unit
  | approve route => ControlPlane.approveRoute nodeKey route
  | disapprove route => ControlPlane.disapproveRoute nodeKey route

def verdict (network : IpAddr × Nat) (call : RouteCall) : Option Bool :=
  if networkOf call.route = some network then some call.approves else none

end RouteCall

inductive Succeed (nodeKey : NodeKey) (w : World) : List RouteCall → World → Prop
  | nil : Succeed nodeKey w [] w
  | snoc {calls : List RouteCall} {call : RouteCall} {w' w'' : World}
    (h : Succeed nodeKey w calls w')
      (hcall : exec (call.make nodeKey) w' = (.ok (), w'')) :
        Succeed nodeKey w (calls ++ [call]) w''

theorem Succeed.call {nodeKey : NodeKey} {w w' : World} {calls : List RouteCall} {call : RouteCall}
    (h : Succeed nodeKey w calls w') (hok : (exec (call.make nodeKey) w').1 = .ok ()) :
    Succeed nodeKey w (calls ++ [call]) (exec (call.make nodeKey) w').2 :=
  h.snoc (Prod.ext hok rfl)

def lastVerdict (calls : List RouteCall) (network : IpAddr × Nat) : Option Bool :=
  lastOf (RouteCall.verdict network) calls

structure Approves (calls : List RouteCall) (approved : List String) : Prop where
  sorted : approved.Pairwise (· ≤ ·)
  nodup : approved.Nodup
  mem : ∀ text, text ∈ approved ↔
    ∃ network, lastVerdict calls network = some true ∧ text = showNetwork network

/-! ## One call -/

section Call

variable {nodeKey : NodeKey} {w w' : World} {row : Node} {route : String}

theorem route_target_run {network : IpAddr × Nat}
    (hrow : w.db.getNodeByNodeKey nodeKey = some row) (hnetwork : networkOf route = some network) :
    (ControlPlane.routeTarget nodeKey route).run handler w =
      (.ok (row, showNetwork network), w) := by
  unfold routeTarget
  rw [canonical_route_eq, hnetwork, Option.map_some]
  dsimp only
  rw [run_bind_ok handler (reads_get_node_by_node_key nodeKey w)]
  dsimp only
  rw [hrow]
  rfl

theorem route_target_run_invalid (hnetwork : networkOf route = none) :
    (ControlPlane.routeTarget nodeKey route).run handler w = (.error (.invalidRoute route), w) := by
  unfold routeTarget
  rw [canonical_route_eq, hnetwork]
  rfl

def HasApproved (nodeKey : NodeKey) (approved : List String) (w : World) : Prop :=
  ∃ row, w.db.getNodeByNodeKey nodeKey = some row ∧ row.approvedRoutes = approved

theorem admit_node_approves (hrow : w.db.getNodeByNodeKey nodeKey = some row)
    (approved : List String) :
    Yields (· = w) (ControlPlane.admitNode { row with approvedRoutes := approved })
      (fun _ w' => HasApproved nodeKey approved w') := by
  obtain ⟨hmem, rfl⟩ := Db.get_node_by_node_key_eq_some.mp hrow
  refine Triple.bind (M := fun _ w' => HasApproved row.nodeKey approved w')
    (triple_store (fun _ _ => trivial) ?_ fun _ _ _ _ _ => trivial) fun _ =>
      triple_perform (fun _ _ => trivial) fun _ hw => hw
  have hsame : SameRow { row with approvedRoutes := approved } row := ⟨rfl, rfl, rfl, rfl⟩
  rintro w' rfl stored db hrun
  exact ⟨_, Db.upsert_edit hmem hsame hrun, rfl⟩

def approvedAfter (approved : List String) (call : RouteCall) (network : IpAddr × Nat) :
    List String :=
  if call.approves then
    if showNetwork network ∈ approved then approved
    else sortDedup (approved ++ [showNetwork network])
  else approved.filter (· ≠ showNetwork network)

theorem route_call_approves (call : RouteCall) (hrow : w.db.getNodeByNodeKey nodeKey = some row) :
    Yields (· = w) (call.make nodeKey) (fun _ w' => ∃ network, networkOf call.route = some network ∧
        HasApproved nodeKey (approvedAfter row.approvedRoutes call network) w') := by
  have hstays : HasApproved nodeKey row.approvedRoutes w := ⟨row, hrow, rfl⟩
  cases hnetwork : networkOf call.route with
  | none =>
    cases call with
    | _ => exact triple_bind_run_error (safe_any _ _) (route_target_run_invalid hnetwork) trivial
  | some network =>
    cases call with
    | approve route =>
      refine triple_bind_run (safe_any _ _) (route_target_run hrow hnetwork) ?_
      dsimp only
      split
      case isTrue happroved =>
        refine triple_pure fun w' hw => ⟨network, rfl, ?_⟩
        rw [hw, approvedAfter, RouteCall.approves, if_pos rfl, if_pos happroved]
        exact hstays
      case isFalse hnew =>
        refine (admit_node_approves hrow _).weaken (fun _ hw => hw)
          (fun _ w' hw => ⟨network, rfl, ?_⟩) fun _ _ _ => trivial
        rw [approvedAfter, RouteCall.approves, if_pos rfl, if_neg hnew]
        exact hw
    | disapprove route =>
      refine triple_bind_run (safe_any _ _) (route_target_run hrow hnetwork) ?_
      dsimp only
      split
      case isTrue hnot =>
        refine triple_pure fun w' hw => ⟨network, rfl, ?_⟩
        have hsame : approvedAfter row.approvedRoutes (.disapprove route) network =
            row.approvedRoutes := by
          refine List.filter_eq_self.mpr fun text htext => decide_eq_true fun heq => hnot ?_
          rw [← heq]
          exact htext
        rw [hw, hsame]
        exact hstays
      case isFalse =>
        exact (admit_node_approves hrow _).weaken (fun _ hw => hw)
          (fun _ w' hw => ⟨network, rfl, hw⟩) fun _ _ _ => trivial

end Call

/-! ## All calls -/

section Calls

variable {calls : List RouteCall} {call : RouteCall} {approved : List String}
  {network : IpAddr × Nat}

theorem network_of_last_verdict {approves : Bool} (h : lastVerdict calls network = some approves) :
    ∃ route, networkOf route = some network := by
  obtain ⟨call, -, hcall⟩ := exists_mem_of_last_of h
  rw [RouteCall.verdict, Option.ite_none_right_eq_some] at hcall
  exact ⟨call.route, hcall.1⟩

theorem last_verdict_append (hcall : networkOf call.route = some network) (other : IpAddr × Nat) :
    lastVerdict (calls ++ [call]) other =
      if network = other then some call.approves else lastVerdict calls other := by
  rw [lastVerdict, last_of_append, RouteCall.verdict, hcall]
  by_cases hother : network = other
  · rw [if_pos hother, if_pos (congrArg some hother)]
    rfl
  · rw [if_neg hother, if_neg fun hsame => hother (Option.some.inj hsame)]
    rfl

theorem Approves.approve (h : Approves calls approved) (hcall : networkOf call.route = some network)
    (happroves : call.approves = true) :
    Approves (calls ++ [call]) (approvedAfter approved call network) := by
  have hmem : ∀ text, text ∈ approvedAfter approved call network ↔
      text ∈ approved ∨ text = showNetwork network := by
    intro text
    rw [approvedAfter, if_pos happroves]
    split
    case isTrue hthere =>
      refine (or_iff_left_of_imp ?_).symm
      rintro rfl
      exact hthere
    case isFalse => rw [mem_sort_dedup, List.mem_append, List.mem_singleton]
  refine ⟨?_, ?_, fun text => ?_⟩
  · rw [approvedAfter, if_pos happroves]
    split
    · exact h.sorted
    · exact pairwise_sort_dedup _
  · rw [approvedAfter, if_pos happroves]
    split
    · exact h.nodup
    · exact nodup_sort_dedup _
  · rw [hmem, h.mem]
    constructor
    · rintro (⟨other, hother, rfl⟩ | rfl)
      · refine ⟨other, ?_, rfl⟩
        rw [last_verdict_append hcall, happroves, hother, ite_self]
      · refine ⟨network, ?_, rfl⟩
        rw [last_verdict_append hcall, if_pos rfl, happroves]
    · rintro ⟨other, hother, rfl⟩
      rw [last_verdict_append hcall] at hother
      split at hother
      case isTrue heq => exact .inr (congrArg showNetwork heq.symm)
      case isFalse => exact .inl ⟨other, hother, rfl⟩

theorem Approves.disapprove (h : Approves calls approved)
    (hcall : networkOf call.route = some network) (happroves : call.approves = false) :
    Approves (calls ++ [call]) (approvedAfter approved call network) := by
  have hfilter : approvedAfter approved call network =
      approved.filter (· ≠ showNetwork network) := if_neg (Bool.eq_false_iff.mp happroves)
  rw [hfilter]
  refine ⟨h.sorted.filter _, h.nodup.filter _, fun text => ?_⟩
  rw [List.mem_filter, decide_eq_true_eq, h.mem]
  constructor
  · rintro ⟨⟨other, hother, rfl⟩, hne⟩
    refine ⟨other, ?_, rfl⟩
    rw [last_verdict_append hcall, if_neg fun heq => hne (congrArg showNetwork heq.symm)]
    exact hother
  · rintro ⟨other, hother, rfl⟩
    rw [last_verdict_append hcall] at hother
    split at hother
    case isTrue =>
      rw [happroves] at hother
      cases hother
    case isFalse hne =>
      obtain ⟨route, hroute⟩ := network_of_last_verdict hother
      exact ⟨⟨other, hother, rfl⟩, fun hsame => hne (show_network_inj hcall hroute hsame.symm)⟩

theorem approves_nil : Approves [] [] := by
  refine ⟨.nil, .nil, fun text => iff_of_false List.not_mem_nil ?_⟩
  rintro ⟨network, hlast, -⟩
  cases hlast

theorem Succeed.approves {nodeKey : NodeKey} {w w' : World} (h : Succeed nodeKey w calls w')
    (hempty : HasApproved nodeKey [] w) :
    ∃ approved, HasApproved nodeKey approved w' ∧ Approves calls approved := by
  induction h with
  | nil => exact ⟨[], hempty, approves_nil⟩
  | snoc _ hcall ih =>
    obtain ⟨approved, ⟨row, hrow, rfl⟩, happroves⟩ := ih
    rename_i call _ _ _
    have hafter := (route_call_approves call hrow _ rfl).2
    rw [show (call.make nodeKey).run handler _ = _ from hcall] at hafter
    obtain ⟨network, hnetwork, hstored⟩ := hafter
    refine ⟨_, hstored, ?_⟩
    cases hverdict : call.approves with
    | true => exact happroves.approve hnetwork hverdict
    | false => exact happroves.disapprove hnetwork hverdict

end Calls

/-- After calls that succeeded on a node without approved routes, its approved routes are sorted and
without duplicates. Each is a canonical route of a network whose last call was an approval, and each
such network has exactly one. -/
theorem approvals_are_networks {nodeKey : NodeKey} {w w' : World} {row : Node}
    {calls : List RouteCall}
    (hrow : w.db.getNodeByNodeKey nodeKey = some row) (hempty : row.approvedRoutes = [])
    (h : Succeed nodeKey w calls w') :
    ∃ after, w'.db.getNodeByNodeKey nodeKey = some after ∧
      after.approvedRoutes.Pairwise (· ≤ ·) ∧ after.approvedRoutes.Nodup ∧
      (∀ text ∈ after.approvedRoutes, canonicalRoute text = some text ∧
        ∃ network, networkOf text = some network ∧ lastVerdict calls network = some true) ∧
      ∀ network, lastVerdict calls network = some true →
        ∃! text, text ∈ after.approvedRoutes ∧ networkOf text = some network := by
  obtain ⟨approved, ⟨after, hafter, rfl⟩, hsorted, hnodup, hmem⟩ := h.approves ⟨row, hrow, hempty⟩
  have hshown {network : IpAddr × Nat} (hlast : lastVerdict calls network = some true) :
      networkOf (showNetwork network) = some network := by
    obtain ⟨route, hroute⟩ := network_of_last_verdict hlast
    exact network_of_show hroute
  refine ⟨after, hafter, hsorted, hnodup, fun text htext => ?_, fun network hlast => ?_⟩
  · obtain ⟨network, hlast, rfl⟩ := (hmem text).mp htext
    refine ⟨?_, network, hshown hlast, hlast⟩
    rw [canonical_route_eq, hshown hlast, Option.map_some]
  · refine ⟨showNetwork network, ⟨(hmem _).mpr ⟨network, hlast, rfl⟩, hshown hlast⟩, ?_⟩
    rintro text ⟨htext, hnetwork⟩
    obtain ⟨other, hother, rfl⟩ := (hmem text).mp htext
    rw [hshown hother] at hnetwork
    rw [Option.some.inj hnetwork]

/-- A node without approved routes. -/
def pairWorld : World := openServer.withStore pairDb stillEnv

/-- A network is approved under two spellings, and another one is withdrawn under a second. -/
def approvalCalls : List RouteCall :=
  [] ++ [.approve "10.0.0.5/24"] ++ [.approve "fd00::1"] ++ [.approve "10.0.0.0/24"] ++
    [.disapprove "fd00:0::1/128"]

/-- The calls succeed and leave one route. -/
theorem approvals_are_networks_twice :
    ∃ w' after, Succeed ⟨1⟩ pairWorld approvalCalls w' ∧
      w'.db.getNodeByNodeKey ⟨1⟩ = some after ∧ after.approvedRoutes = ["10.0.0.0/24"] ∧
      ∃! text, text ∈ after.approvedRoutes ∧ networkOf text = networkOf "10.0.0.77/24" := by
  have hsucceed : Succeed ⟨1⟩ pairWorld approvalCalls _ :=
    (((Succeed.nil.call (by decide +kernel)).call (by decide +kernel)).call
      (by decide +kernel)).call (by decide +kernel)
  have hrow : pairWorld.db.getNodeByNodeKey ⟨1⟩ = some (plainNode 1) := rfl
  obtain ⟨after, hafter, -, -, -, hunique⟩ := approvals_are_networks hrow rfl hsucceed
  have hnetwork : networkOf "10.0.0.77/24" = some (.v4 ⟨0x0a000000⟩, 24) := by decide +kernel
  refine ⟨_, after, hsucceed, hafter, ?_, ?_⟩
  · have hroutes := congrArg (Option.map Node.approvedRoutes) hafter
    rw [Option.map_some] at hroutes
    refine Option.some.inj (hroutes.symm.trans ?_)
    decide +kernel
  · rw [hnetwork]
    exact hunique _ (by decide +kernel)

end Crabscale.Control
