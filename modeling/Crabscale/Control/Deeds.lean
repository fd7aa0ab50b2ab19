import Crabscale.Control.Allocator

/-!
# What the operations do, call by call

`Acts` says why a call writes what it writes. `Places` adds where a written row gets its addresses
and routes from, and `Saves` when a pending registration is new. `Deeds` is all three, and the guard
that the walk through the operations is about.
-/

namespace Crabscale.Control

open Rust Proto Policy Interaction Interaction.Program ControlPlane

/-! ## Where a row gets its addresses from -/

variable {cp : ControlPlane} {op : Op} {w₀ w : World}

/-- A node is written with the allowed addresses of its row, and with the routes of the row or those
that a client advertises. -/
structure RoutesKept (row node : Node) : Prop where
  allowedIps : row.allowedIps = node.allowedIps
  advertised : node.advertisedRoutes = row.advertisedRoutes ∨
    ∃ hostinfo, node.advertisedRoutes = routeList hostinfo

theorem RoutesKept.refl (row : Node) : RoutesKept row row := ⟨rfl, .inl rfl⟩

theorem RoutesKept.trans {a b c : Node} (hab : RoutesKept a b) (hbc : RoutesKept b c) :
    RoutesKept a c := by
  refine ⟨hab.allowedIps.trans hbc.allowedIps, ?_⟩
  obtain hsame | hnew := hbc.advertised
  · rw [hsame]
    exact hab.advertised
  · exact .inr hnew

/-- A node is written with the addresses and the name of its row, or with new addresses. -/
inductive Placed (cp : ControlPlane) (nodes : List Node) (node : Node) : Prop where
  | kept {row : Node} (hrow : row ∈ nodes) (hkey : row.nodeKey = node.nodeKey)
      (haddresses : row.addresses = node.addresses) (hname : row.name = node.name)
      (hroutes : RoutesKept row node)
  | new {ipv4 : Ipv4Addr} {ipv6 : Ipv6Addr} (hid : node.id = 0)
      (haddresses : node.addresses = [ipv4.display ++ "/32", ipv6.display ++ "/128"])
      (hallotted : Allotted cp (ControlPlane.usedIpv4 nodes)
        (ControlPlane.usedIpv6 nodes) ipv4 ipv6)
      (hallowed : node.allowedIps = some node.addresses)
      (hadvertised : ∃ hostinfo, node.advertisedRoutes = routeList hostinfo)

def Places (cp : ControlPlane) (w : World) : Call → Prop
  | .store (.upsertNode node) => Placed cp w.db.nodes node
  | _ => True

structure SamePlacing (row node : Node) : Prop where
  nodeKey : row.nodeKey = node.nodeKey
  addresses : row.addresses = node.addresses
  name : row.name = node.name
  routes : RoutesKept row node

theorem SamePlacing.refl (row : Node) : SamePlacing row row := ⟨rfl, rfl, rfl, .refl row⟩

theorem SamePlacing.placed {nodes : List Node} {row node : Node} (h : SamePlacing row node)
    (hrow : row ∈ nodes) : Placed cp nodes node :=
  .kept hrow h.nodeKey h.addresses h.name h.routes

variable {node : Node}

theorem retag_placing {owner : Option String} {updated : Node} {requested : List String}
    (h : cp.retag owner node requested = some updated) : SamePlacing node updated := by
  unfold retag at h
  split at h
  · cases h
    exact .refl node
  split at h
  all_goals split at h
  all_goals cases h
  all_goals exact ⟨rfl, rfl, rfl, rfl, .inl rfl⟩

theorem observe_placing (before : Node) (request : MapRequest) (now : String) :
    SamePlacing before (observeRequest before request now) := by
  unfold observeRequest
  dsimp only
  split
  · exact ⟨rfl, rfl, rfl, rfl, .inl rfl⟩
  · cases request.hostinfo with
    | none => exact ⟨rfl, rfl, rfl, rfl, .inl rfl⟩
    | some hostinfo => exact ⟨rfl, rfl, rfl, rfl, .inr ⟨some hostinfo, rfl⟩⟩

theorem map_row_placing {w : World} {before : Node} {request : MapRequest}
    (h : cp.mapRow w before request = some node) : SamePlacing before node := by
  have hobserved := observe_placing before request (cp.nowAt w)
  unfold mapRow mapTags at h
  split at h
  · have hretagged := retag_placing h
    exact ⟨hobserved.nodeKey.trans hretagged.nodeKey, hobserved.addresses.trans hretagged.addresses,
      hobserved.name.trans hretagged.name, hobserved.routes.trans hretagged.routes⟩
  · cases h
    exact hobserved

/-! ## What starts a registration -/

/-- A request that starts an interactive registration: it follows nothing up, its node key has no
row or one of the same machine that is not authorized, its expiry is neither past nor in the future,
and it presents no valid pre-auth key. -/
structure StartsInteractive (cp : ControlPlane) (w : World) (machineKey : MachineKey)
    (request : RegisterRequest) : Prop where
  followup : request.followup = ""
  row : ∀ row ∈ w.db.getNodeByNodeKey request.nodeKey,
    row.machineKey = machineKey ∧ row.machineAuthorized = false
  notPast : (request.expiry ≠ "" &&
    cp.ext.isPast request.expiry (cp.nowAt (cp.bootstrapped w))) = false
  notFuture : (request.expiry ≠ "" &&
    cp.ext.isFuture request.expiry (cp.nowAt (cp.bootstrapped w))) = false
  noKey : ∀ auth ∈ request.auth,
    cp.validKey auth (cp.nowAt (cp.bootstrapped w)) (cp.bootstrapped w).db = none

def Op.Starts (cp : ControlPlane) (w : World) (op : Op) : Prop :=
  ∃ machineKey request, op = .register machineKey request ∧
    StartsInteractive cp w machineKey request

/-- A registration is saved over the one with its id, or it is the first change of an operation that
starts one. -/
def Saves (cp : ControlPlane) (op : Op) (w₀ w : World) : Call → Prop
  | .store (.savePending entry) => (w.db.getPending entry.authId).isSome ∨
      op.Starts cp w₀ ∧ w.db.pending = w₀.db.pending
  | _ => True

theorem PendingAct.over {authId : String} {entry before : PendingRegistration}
    (hbefore : w.db.getPending authId = some before) (hid : entry.authId = before.authId) :
    (w.db.getPending entry.authId).isSome := by
  rw [hid, (Db.get_pending_eq_some.mp hbefore).1, hbefore]
  rfl

/-! ## The guard -/

def Op.isSsh : Op → Bool
  | .handleSshAction .. | .approveSsh _ | .rejectSsh _ | .sshAuthInfo _ => true
  | _ => false

def Op.isSession : Op → Bool
  | .handleMap .. | .closeSession _ | .reapSessions => true
  | _ => false

def Call.OffSsh : Call → Prop
  | .store (.saveSshAuth _) | .store (.deleteSshAuth _) => False
  | _ => True

def Call.OffSessions : Call → Prop
  | .memory (.sessionOpen _ _ _) | .memory (.sessionClose _ _) | .memory (.sessionTick _) => False
  | _ => True

/-- The calls that an operation makes when it started in `w₀`. Only some operations make calls about
SSH approvals or about sessions. -/
structure Deeds (cp : ControlPlane) (op : Op) (w₀ w : World) (c : Call) : Prop where
  acts : Acts cp op w₀ w c
  places : Places cp w c
  saves : Saves cp op w₀ w c
  ssh : op.isSsh = false → c.OffSsh := by exact fun _ => trivial
  sessions : op.isSession = false → c.OffSessions := by exact fun _ => trivial

variable {c : Call}

theorem Call.Quiet.off_ssh (hc : c.Quiet) : c.OffSsh := by
  cases c with
  | store c => cases c <;> first | exact hc.elim | trivial
  | memory c => trivial
  | env c => trivial

theorem Call.OffSessions.sessions_eq (hc : c.OffSessions) (w : World) :
    (handler c w).2.sessions = w.sessions := by
  cases c with
  | store c => rfl
  | memory c => cases c <;> first | rfl | exact hc.elim
  | env c => rfl

theorem Call.Plain.deeds (hc : c.Plain) : Deeds cp op w₀ w c := by
  refine ⟨hc.acts, ?_, ?_, fun _ => ?_, fun _ => ?_⟩
  all_goals cases c with
    | store c => cases c <;> first | exact hc.elim | trivial
    | memory c => first | trivial | (cases c <;> first | exact hc.elim | trivial)
    | env c => trivial

theorem deeds_quiet : AllowsQuiet (Deeds cp op w₀) := fun _ _ hc => hc.plain.deeds

theorem Call.OnSsh.deeds (hop : op.isSsh = true) (hc : c.OnSsh) : Deeds cp op w₀ w c := by
  cases c with
  | store c =>
    cases c with
    | saveSshAuth | deleteSshAuth =>
      exact ⟨trivial, trivial, trivial, by simp [hop], fun _ => trivial⟩
    | _ => exact Call.Plain.deeds (by trivial)
  | memory c => exact Call.Plain.deeds (Call.Quiet.plain hc)
  | env c => exact Call.Plain.deeds trivial

/-- The plain calls and those on the sessions. -/
def Call.OnSessions : Call → Prop
  | .memory _ => True
  | c => c.Plain

theorem Call.OnSessions.deeds (hop : op.isSession = true) (hc : c.OnSessions) :
    Deeds cp op w₀ w c := by
  cases c with
  | store c => exact Call.Plain.deeds hc
  | memory c => exact ⟨trivial, trivial, trivial, fun _ => trivial, by simp [hop]⟩
  | env c => exact Call.Plain.deeds trivial

theorem Call.OffTables.on_sessions (hc : c.OffTables) : c.OnSessions := by
  cases c with
  | store c => cases c <;> trivial
  | memory c => trivial
  | env c => trivial

end Crabscale.Control
