import Crabscale.Policy.Compile

/-!
# Automatic approval of routes

The routes a node advertises that the policy's `autoApprovers` approves without an explicit
administrative action.
-/

namespace Crabscale.Policy

open Rust

/-- Whether an `autoApprovers` entry designates the node. -/
def approverMatchesNode (policy : Policy) (principal : String) (node : CompileNode) : Bool :=
  if principal = "*" then true
  else
    match stripPrefix "autogroup:" principal with
    | some rest =>
      if rest = "self" then true
      else if rest = "member" then node.tags.isEmpty
      else if rest = "tagged" then !node.tags.isEmpty
      else false
    | none =>
      if startsWith "group:" principal then
        node.userLogin.any fun login => principalMatchesUser policy principal login
      else if startsWith "tag:" principal then node.tags.any (· == principal)
      else if node.userLogin.any (· == principal) then true
      else
        match canonicalRoute principal with
        | none => false
        | some net => node.addresses.any fun addr => addrInCidr addr net

/-- The advertised routes that one `autoApprovers` entry approves. -/
def consider (policy : Policy) (node : CompileNode) (advertised : List String)
    (entry : String × List String) : List String :=
  match canonicalRoute entry.1 with
  | none => []
  | some canonPrefix =>
    advertised.filterMap fun route => do
      let canonRoute ← canonicalRoute route
      if addrInCidr canonRoute canonPrefix &&
          entry.2.any fun approver => approverMatchesNode policy approver node then
        some canonRoute
      else none

def autoApprovedRoutes (policy : Policy) (node : CompileNode) (advertised : List String) :
    List String :=
  sortDedup
    (policy.autoApprovers.routes.toList.flatMap (consider policy node advertised) ++
      policy.autoApprovers.exitNode.toList.flatMap (consider policy node advertised))

/-! ## Only advertised routes are approved -/

section Advertised

variable {policy : Policy} {node : CompileNode} {advertised : List String} {route : String}

theorem mem_of_mem_consider (hcanonical : ∀ route ∈ advertised, canonicalRoute route = some route)
    {entry : String × List String} (h : route ∈ consider policy node advertised entry) :
    route ∈ advertised := by
  unfold consider at h
  split at h
  · cases h
  · obtain ⟨text, htext, hroute⟩ := List.mem_filterMap.mp h
    rw [hcanonical text htext] at hroute
    dsimp only [bind, Option.bind] at hroute
    split at hroute
    · cases hroute
      exact htext
    · cases hroute

/-- What the policy approves is advertised, when the routes are advertised in their canonical
form. -/
theorem mem_of_mem_auto_approved
    (hcanonical : ∀ route ∈ advertised, canonicalRoute route = some route)
    (h : route ∈ autoApprovedRoutes policy node advertised) : route ∈ advertised := by
  rw [autoApprovedRoutes, mem_sort_dedup, List.mem_append, List.mem_flatMap, List.mem_flatMap] at h
  obtain ⟨entry, -, h⟩ | ⟨entry, -, h⟩ := h
  · exact mem_of_mem_consider hcanonical h
  · exact mem_of_mem_consider hcanonical h

end Advertised

/-! ## Approved networks -/

def InNetwork (ip : IpAddr) (s : String) : Prop :=
  ∃ network bits, parseCidr s = some (network, bits) ∧ SameNetwork bits ip network

/-- The text is a network, and `s` denotes the same one. -/
def Denotes (s text : String) : Prop :=
  (parseCidr text).isSome = true ∧ ∀ ip, InNetwork ip s ↔ InNetwork ip text

/-- The entries of both tables of `autoApprovers`. -/
def approverEntries (policy : Policy) : List (String × List String) :=
  policy.autoApprovers.routes.toList ++ policy.autoApprovers.exitNode.toList

def ListsApprover (policy : Policy) (node : CompileNode) (entry : String × List String) : Prop :=
  ∃ approver ∈ entry.2, approverMatchesNode policy approver node = true

def networkBits (s : String) : Nat := ((parseCidr s).map Prod.snd).getD 0

section Contained

variable {policy : Policy} {node : CompileNode} {advertised : List String} {route : String}
  {entry : String × List String}

theorem lies_in_iff {addr net : String} : LiesIn addr net ↔
    ∃ ip bits, parseCidr addr = some (ip, bits) ∧ InNetwork ip net := by
  constructor
  · rintro ⟨ip, addrBits, network, bits, haddr, hnet, hsame⟩
    exact ⟨ip, addrBits, haddr, network, bits, hnet, hsame⟩
  · rintro ⟨ip, addrBits, haddr, network, bits, hnet, hsame⟩
    exact ⟨ip, addrBits, network, bits, haddr, hnet, hsame⟩

theorem lies_in_display {ip : IpAddr} {net : String} :
    LiesIn (ip.display ++ "/" ++ toString (maxBits ip)) net ↔ InNetwork ip net := by
  have hhost := parse_cidr_display (Nat.le_refl (maxBits ip))
  rw [lies_in_iff]
  constructor
  · rintro ⟨other, bits, hother, hin⟩
    cases hhost.symm.trans hother
    exact hin
  · exact fun hin => ⟨ip, maxBits ip, hhost, hin⟩

theorem parse_cidr_of_canonical {text : String} (h : canonicalRoute text = some route) :
    (parseCidr text).isSome = true := by
  rw [canonical_route_eq] at h
  obtain ⟨network, hnetwork, -⟩ := Option.map_eq_some_iff.mp h
  obtain ⟨parsed, hparsed, -⟩ := Option.map_eq_some_iff.mp hnetwork
  rw [hparsed]
  rfl

theorem denotes_of_canonical {text : String} (h : canonicalRoute text = some route) :
    Denotes route text := by
  refine ⟨parse_cidr_of_canonical h, fun ip => ?_⟩
  rw [← lies_in_display, ← lies_in_display]
  exact lies_in_canonical h

theorem mem_consider_iff : route ∈ consider policy node advertised entry ↔
    (∃ text ∈ advertised, canonicalRoute text = some route) ∧ LiesIn route entry.1 ∧
      ListsApprover policy node entry := by
  unfold consider
  cases hcanonical : canonicalRoute entry.1 with
  | none =>
    refine iff_of_false List.not_mem_nil ?_
    rintro ⟨-, ⟨ip, addrBits, network, bits, -, hnet, -⟩, -⟩
    rw [canonicalRoute, hnet] at hcanonical
    cases hcanonical
  | some canonical =>
    have happroved (text : String) : ((canonicalRoute text).bind fun canonRoute =>
        if (addrInCidr canonRoute canonical &&
          entry.2.any fun approver => approverMatchesNode policy approver node) = true then
            some canonRoute else none) = some route ↔
        canonicalRoute text = some route ∧ LiesIn route entry.1 ∧
          ListsApprover policy node entry := by
      rw [Option.bind_eq_some_iff]
      simp only [Bool.and_eq_true, addr_in_cidr_iff, lies_in_canonical hcanonical,
        List.any_eq_true, Option.ite_none_right_eq_some, Option.some.injEq]
      constructor
      · rintro ⟨_, htext, happroves, rfl⟩
        exact ⟨htext, happroves⟩
      · rintro ⟨htext, happroves⟩
        exact ⟨route, htext, happroves, rfl⟩
    dsimp only
    rw [List.mem_filterMap]
    constructor
    · rintro ⟨text, htext, hroute⟩
      obtain ⟨hroute, happroves⟩ := (happroved text).mp hroute
      exact ⟨⟨text, htext, hroute⟩, happroves⟩
    · rintro ⟨⟨text, htext, hroute⟩, happroves⟩
      exact ⟨text, htext, (happroved text).mpr ⟨hroute, happroves⟩⟩

theorem mem_auto_approved_iff : route ∈ autoApprovedRoutes policy node advertised ↔
    ∃ entry ∈ approverEntries policy, route ∈ consider policy node advertised entry := by
  rw [autoApprovedRoutes, mem_sort_dedup, ← List.flatMap_append, List.mem_flatMap]
  rfl

/-- A network contains a route if and only if it contains the address of the route and has not more
bits. -/
theorem contains_route_iff (hroute : (parseCidr route).isSome = true) {net : String} :
    (∀ ip, InNetwork ip route → InNetwork ip net) ↔
      LiesIn route net ∧ networkBits net ≤ networkBits route := by
  obtain ⟨⟨address, shared⟩, hroute⟩ := Option.isSome_iff_exists.mp hroute
  have hshared := parse_cidr_bits_le hroute
  cases hnet : parseCidr net with
  | none =>
    refine iff_of_false (fun h => ?_) fun h => ?_
    · obtain ⟨network, bits, hparsed, -⟩ :=
        h address ⟨address, shared, hroute, same_network_refl shared address⟩
      cases hnet.symm.trans hparsed
    · obtain ⟨-, -, network, bits, -, hparsed, -⟩ := h.1
      cases hnet.symm.trans hparsed
  | some parsed =>
    obtain ⟨network, bits⟩ := parsed
    have hsubset := same_network_subset_iff hshared (parse_cidr_bits_le hnet)
    simpa only [InNetwork, LiesIn, networkBits, hroute, hnet, Option.map_some, Option.getD_some,
      Option.some.injEq, Prod.mk.injEq, exists_and_left, exists_eq_left', and_assoc] using hsubset

end Contained

/-- Every approved route denotes an advertised network. One prefix that lists an approver of the
node contains the whole route if and only if one of those that approve it has not more bits than the
route. -/
theorem auto_approval_contained_iff (policy : Policy) (node : CompileNode)
    (advertised : List String) (route : String)
    (hroute : route ∈ autoApprovedRoutes policy node advertised) :
    (∃ text ∈ advertised, Denotes route text) ∧
      ((∃ entry ∈ approverEntries policy, ListsApprover policy node entry ∧
          ∀ ip, InNetwork ip route → InNetwork ip entry.1) ↔
        ∃ entry ∈ approverEntries policy, route ∈ consider policy node advertised entry ∧
          networkBits entry.1 ≤ networkBits route) := by
  obtain ⟨first, -, hfirst⟩ := mem_auto_approved_iff.mp hroute
  obtain ⟨⟨text, htext, hcanonical⟩, -⟩ := mem_consider_iff.mp hfirst
  have hparsed := parse_cidr_of_canonical (canonical_route_canonical hcanonical)
  refine ⟨⟨text, htext, denotes_of_canonical hcanonical⟩, exists_congr fun entry => ?_⟩
  rw [contains_route_iff hparsed, mem_consider_iff]
  constructor
  · rintro ⟨hentry, hlists, hlies, hbits⟩
    exact ⟨hentry, ⟨⟨text, htext, hcanonical⟩, hlies, hlists⟩, hbits⟩
  · rintro ⟨hentry, ⟨-, hlies, hlists⟩, hbits⟩
    exact ⟨hentry, hlists, hlies, hbits⟩

def officeApprovers : Policy :=
  { autoApprovers := { routes := BTreeMap.from [("10.0.0.0/16", ["*"])] } }

/-- A route inside the network is approved, and lies in it as a whole. -/
theorem auto_approval_contained_office :
    "10.0.2.0/24" ∈ autoApprovedRoutes officeApprovers { id := 1 } ["10.0.2.3/24"] ∧
      ∃ entry ∈ approverEntries officeApprovers, ListsApprover officeApprovers { id := 1 } entry ∧
        ∀ ip, InNetwork ip "10.0.2.0/24" → InNetwork ip entry.1 := by
  have hroute : "10.0.2.0/24" ∈
      autoApprovedRoutes officeApprovers { id := 1 } ["10.0.2.3/24"] := by
    decide +kernel
  refine ⟨hroute, (auto_approval_contained_iff officeApprovers { id := 1 } ["10.0.2.3/24"] _
    hroute).2.mpr ⟨("10.0.0.0/16", ["*"]), ?_, ?_, ?_⟩⟩
  · decide +kernel
  · decide +kernel
  · decide +kernel

/-- A route that is 256 times as large as the network is approved too. -/
theorem auto_approval_widened :
    "10.0.0.0/8" ∈ autoApprovedRoutes officeApprovers { id := 1 } ["10.0.0.0/8"] ∧
      ¬∃ entry ∈ approverEntries officeApprovers, ListsApprover officeApprovers { id := 1 } entry ∧
        ∀ ip, InNetwork ip "10.0.0.0/8" → InNetwork ip entry.1 := by
  refine ⟨by decide +kernel, ?_⟩
  rintro ⟨entry, hentry, -, hall⟩
  have hentries : approverEntries officeApprovers = [("10.0.0.0/16", ["*"])] := by decide +kernel
  rw [hentries, List.mem_singleton] at hentry
  subst hentry
  have hparsed : (parseCidr "10.0.0.0/8").isSome = true := by decide +kernel
  have hbits := ((contains_route_iff hparsed).mp hall).2
  exact absurd hbits (by decide +kernel)

end Crabscale.Policy
