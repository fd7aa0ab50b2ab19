import Crabscale.Policy.Cidr
import Crabscale.Policy.Model

/-!
# The policy compiler

Resolution of principals to networks and identities, and compilation of the network rules and
capability grants of a policy into a packet filter and a set of visible peers per node.
-/

namespace Crabscale.Policy

open Rust Proto

structure CompileNode where
  id : Nat
  stableId : String := ""
  userLogin : Option String := none
  addresses : List String := []
  tags : List String := []
  deriving DecidableEq

structure CompiledPolicy where
  globalFilter : List FilterRule := []
  nodeFilters : BTreeMap Nat (List FilterRule) := ∅
  grants : BTreeMap Nat (List FilterRule) := ∅
  peerVisibility : BTreeMap Nat (BTreeSet Nat) := ∅

/-! ## Resolved targets -/

/-- A resolved source or destination: autogroup markers, networks and identities. -/
structure ResolvedTarget where
  wildcard : Bool := false
  selfMatch : Bool := false
  memberMatch : Bool := false
  taggedMatch : Bool := false
  nets : List String := []
  identities : BTreeSet String := ∅

namespace ResolvedTarget

def identityMatch (target : ResolvedTarget) (node : CompileNode) : Bool :=
  (node.userLogin.any fun login => target.identities.contains login) ||
    node.tags.any fun tag => target.identities.contains tag

def autogroupMatch (target : ResolvedTarget) (node : CompileNode) : Bool :=
  target.selfMatch || (target.memberMatch && node.tags.isEmpty) ||
    (target.taggedMatch && !node.tags.isEmpty)

def matchesNode (target : ResolvedTarget) (node : CompileNode) : Bool :=
  if target.wildcard || target.selfMatch then true
  else if target.identityMatch node then true
  else if target.memberMatch && node.tags.isEmpty then true
  else if target.taggedMatch && !node.tags.isEmpty then true
  else target.nets.any fun net => node.addresses.any fun addr => addrInCidr addr net

def autogroupIps (target : ResolvedTarget) (nodes : List CompileNode) : List String :=
  nodes.flatMap fun node => if target.autogroupMatch node then node.addresses else []

def toSrcIps (target : ResolvedTarget) (nodes : List CompileNode) : List String :=
  if target.wildcard then ["*"]
  else
    sortDedup (target.nets ++ target.autogroupIps nodes ++
      nodes.flatMap fun node => if target.identityMatch node then node.addresses else [])

end ResolvedTarget

/-! ## Resolution of principals -/

/-- A non-empty name of letters, digits, dashes, dots and underscores. -/
def isHostIdent (s : String) : Bool :=
  s ≠ "" && s.toList.all fun c => isAsciiAlphanumeric c || c == '-' || c == '.' || c == '_'

/-- A login `user@host`, the user part without whitespace. -/
def isUserIdent (s : String) : Bool :=
  match splitOnce '@' s with
  | none => false
  | some (user, host) => user ≠ "" && host ≠ "" && user.toList.all fun c => !isWhitespace c

def isBareIpv6 (s : String) : Bool :=
  s.toList.contains ':' && !startsWith "[" s && (parseIpv6 s).isSome

def resolveAutogroup (rest : String) : ResolvedTarget :=
  if rest = "self" then { selfMatch := true }
  else if rest = "member" then { memberMatch := true }
  else if rest = "tagged" then { taggedMatch := true }
  else {}

def resolveHost (policy : Policy) (name : String) : ResolvedTarget :=
  match policy.hosts[name]? with
  | some value => if isIpOrCidrStr value then { nets := [normalizeCidr value] } else {}
  | none => {}

/-- Add what a group member resolves to: its wildcard, networks and identities. Autogroup markers
of a member are not carried over. -/
def ResolvedTarget.addMember (group member : ResolvedTarget) : ResolvedTarget :=
  { group with
    wildcard := group.wildcard || member.wildcard
    nets := group.nets ++ member.nets
    identities := group.identities ∪ member.identities }

/-- Resolve one principal with the groups in `resolving` already open. A group is entered only
while it is not open, so `depth` need not exceed the number of groups by more than one. -/
def resolveSingleWithin (policy : Policy) :
    (depth : Nat) → (resolving : BTreeSet String) → (target : String) → ResolvedTarget
  | 0, _, _ => {}
  | depth + 1, resolving, target =>
    if target = "*" then { wildcard := true }
    else
      match stripPrefix "autogroup:" target with
      | some rest => resolveAutogroup rest
      | none =>
        match stripPrefix "group:" target with
        | some group =>
          if resolving.contains group then {}
          else
            ((policy.groups[group]?).getD []).foldl
              (fun resolved member =>
                resolved.addMember
                  (resolveSingleWithin policy depth (resolving.insert group) member))
              {}
        | none =>
          if startsWith "tag:" target then { identities := {target} }
          else if isUserIdent target then { identities := {target} }
          else if isIpOrCidrStr target then { nets := [normalizeCidr target] }
          else resolveHost policy target

def resolveSingle (policy : Policy) (target : String) : ResolvedTarget :=
  resolveSingleWithin policy (policy.groups.size + 1) ∅ target

/-- The number of groups that can still be entered. -/
def openable (policy : Policy) (resolving : BTreeSet String) : Nat :=
  (policy.groups.keys.filter fun group => !resolving.contains group).length

theorem length_unseen_lt {keys : List String} {seen seen' : BTreeSet String} {key : String}
    (hkey : key ∈ keys) (hnew : ¬seen.contains key = true) (hkept : ∀ k ∈ seen, k ∈ seen')
    (hseen : key ∈ seen') :
    (keys.filter fun k => !seen'.contains k).length <
      (keys.filter fun k => !seen.contains k).length := by
  have hfilter : (keys.filter fun k => !seen'.contains k) =
      (keys.filter fun k => !seen.contains k).filter fun k => !seen'.contains k := by
    rw [List.filter_filter]
    refine List.filter_congr fun k _ => ?_
    have hk := hkept k
    simp only [Std.ExtTreeSet.mem_iff_contains] at hk
    grind
  rw [hfilter, List.length_filter_lt_length_iff_exists]
  exact ⟨key, by simp [hkey, hnew], by simp [hseen]⟩

theorem openable_insert_lt {policy : Policy} {resolving : BTreeSet String} {group : String}
    (hgroup : group ∈ policy.groups) (hopen : resolving.contains group = false) :
    openable policy (resolving.insert group) < openable policy resolving :=
  length_unseen_lt (Std.ExtTreeMap.mem_keys.mpr hgroup) (by simp [hopen])
    (fun _ hmem => Std.ExtTreeSet.mem_insert.mpr (.inr hmem)) Std.ExtTreeSet.mem_insert_self

theorem openable_empty_le {policy : Policy} : openable policy ∅ ≤ policy.groups.size := by
  rw [← Std.ExtTreeMap.length_keys]
  exact List.length_filter_le _ _

def ResolvedTarget.merge (resolved single : ResolvedTarget) : ResolvedTarget where
  wildcard := resolved.wildcard || single.wildcard
  selfMatch := resolved.selfMatch || single.selfMatch
  memberMatch := resolved.memberMatch || single.memberMatch
  taggedMatch := resolved.taggedMatch || single.taggedMatch
  nets := resolved.nets ++ single.nets
  identities := resolved.identities ∪ single.identities

def resolve (policy : Policy) (targets : List String) : ResolvedTarget :=
  let resolved := targets.foldl
    (fun (resolved : ResolvedTarget) target => resolved.merge (resolveSingle policy target)) {}
  { resolved with nets := sortDedup resolved.nets }

def resolveBare (policy : Policy) (host : String) : ResolvedTarget :=
  if host = "*" then { wildcard := true }
  else
    match stripPrefix "autogroup:" host with
    | some rest => resolveAutogroup rest
    | none =>
      if startsWith "tag:" host then { identities := {host} }
      else if startsWith "group:" host then
        ((policy.groups[trimStartMatches "group:" host]?).getD []).foldl
          (fun resolved member => resolved.addMember (resolveSingle policy member)) {}
      else if isUserIdent host then { identities := {host} }
      else if isIpOrCidrStr host then { nets := [normalizeCidr host] }
      else resolveHost policy host

/-! ## Destinations and protocols -/

/-- A parsed destination. -/
structure DstTarget where
  target : ResolvedTarget
  ports : List NetPortRange
  wildcard : Bool

def DstTarget.matchesNode (dst : DstTarget) (node : CompileNode) : Bool :=
  dst.wildcard || dst.target.matchesNode node

def allPorts : List NetPortRange := [⟨0, 65535⟩]

def parsePortItem (item : String) : List NetPortRange :=
  let item := trim item
  if item = "" then []
  else
    match splitOnce '-' item with
    | some (lo, hi) =>
      match parseU16 lo, parseU16 hi with
      | some lo, some hi => if lo ≤ hi then [⟨lo, hi⟩] else []
      | _, _ => []
    | none =>
      match parseU16 item with
      | some port => [⟨port, port⟩]
      | none => []

def parsePorts (ports : String) : List NetPortRange :=
  if ports = "*" then allPorts else (split ',' ports).flatMap parsePortItem

/-- Split `[addr]:ports`. -/
def splitBracketedPorts (target : String) : Option (String × String) := do
  let (rest, ports) ← splitOnceStr "]:" target
  let host ← stripPrefix "[" rest
  if host = "" || ports = "" then none else some (host, ports)

/-- Split off a trailing `:ports` when what stands before is clearly not a bare IPv6 address. -/
def splitPortsLiteral (target : String) : Option (String × String) := do
  let (host, ports) ← rsplitOnce ':' target
  if host = "" || ports = "" then none
  else if isBareIpv6 host then none
  else if host = "*" || isIpOrCidrStr host || isHostIdent host || startsWith "tag:" host ||
      startsWith "group:" host || startsWith "autogroup:" host || isUserIdent host then
    some (host, ports)
  else none

def parseDst (policy : Policy) (target : String) : Option DstTarget :=
  if target = "*" then some { target := {}, ports := allPorts, wildcard := true }
  else
    match splitBracketedPorts target with
    | some (host, ports) =>
      some { target := resolveBare policy host, ports := parsePorts ports, wildcard := false }
    | none =>
      match splitPortsLiteral target with
      | some (host, ports) =>
        some { target := resolveBare policy host, ports := parsePorts ports, wildcard := false }
      | none => some { target := resolveBare policy target, ports := allPorts, wildcard := false }

def protoNumber (name : String) : Option Int :=
  if name = "icmp" || name = "icmpv4" then some 1
  else if name = "tcp" then some 6
  else if name = "udp" then some 17
  else if name = "gre" then some 47
  else if name = "icmpv6" || name = "icmp6" then some 58
  else none

/-- The protocol numbers of a rule; `none` stands for the client's default protocols. -/
def parseIpProto (proto : Option String) : Option (List Int) := do
  let proto ← proto
  if proto = "" then none
  else
    let name := ((split ':' proto).head?).getD proto
    match parseI32 name with
    | some num => some [num]
    | none => (protoNumber (toAsciiLowercase name)).map fun num => [num]

/-! ## Compilation -/

structure CompileState where
  compiled : CompiledPolicy := {}
  canReach : BTreeMap Nat (BTreeSet Nat) := ∅

def pushDedup (rules : List FilterRule) (rule : FilterRule) : List FilterRule :=
  if rule ∈ rules then rules else rules ++ [rule]

def compileDst (policy : Policy) (nodes srcNodes : List CompileNode) (srcIps : List String)
    (ipProto : Option (List Int)) (state : CompileState) (dst : String) : CompileState :=
  match parseDst policy dst with
  | none => state
  | some dstTarget =>
    let filter : FilterRule := { srcIps, dstPorts := dstTarget.ports, ipProto }
    let dstNodes := nodes.filter dstTarget.matchesNode
    { compiled :=
        { state.compiled with
          globalFilter := pushDedup state.compiled.globalFilter filter
          nodeFilters := dstNodes.foldl (fun filters node => pushEntry filters node.id filter)
            state.compiled.nodeFilters }
      canReach := srcNodes.foldl (fun canReach s =>
        canReach.alter s.id fun reach =>
          some (dstNodes.foldl (fun reach d => reach.insert d.id) (reach.getD ∅)))
        state.canReach }

def compileAcl (policy : Policy) (nodes : List CompileNode) (state : CompileState) (rule : Acl) :
    CompileState :=
  let resolvedSrc := resolve policy rule.src
  let srcIps := resolvedSrc.toSrcIps nodes
  if srcIps = [] then state
  else
    rule.dst.foldl
      (compileDst policy nodes (nodes.filter resolvedSrc.matchesNode) srcIps
        (parseIpProto rule.proto))
      state

def valuesOf : JsonValue → List JsonValue
  | .array items => items
  | other => [other]

def compileGrant (policy : Policy) (nodes : List CompileNode) (compiled : CompiledPolicy)
    (grant : Grant) : CompiledPolicy :=
  let srcIps := (resolve policy grant.src).toSrcIps nodes
  if srcIps = [] then compiled
  else
    let dstTargets := grant.dst.filterMap (parseDst policy)
    nodes.foldl (fun compiled node =>
      if dstTargets.any fun target => target.matchesNode node then
        let capGrant : CapGrant :=
          { dsts := node.addresses
            capMap := grant.app.map fun _ value => valuesOf value }
        let filter : FilterRule := { srcIps, capGrant := [capGrant] }
        { compiled with
          nodeFilters := pushEntry compiled.nodeFilters node.id filter
          grants := pushEntry compiled.grants node.id filter }
      else compiled) compiled

/-- Give every node a filter and an empty set of visible peers. -/
def completeNodes (nodes : List CompileNode) (compiled : CompiledPolicy) : CompiledPolicy :=
  { compiled with
    nodeFilters := nodes.foldl (fun filters node => touchEntry filters node.id)
      compiled.nodeFilters
    peerVisibility := nodes.foldl (fun visibility node => visibility.insert node.id ∅)
      compiled.peerVisibility }

def visiblePeers (canReach : BTreeMap Nat (BTreeSet Nat)) (node : Nat) (visible : BTreeSet Nat) :
    BTreeSet Nat :=
  let outgoing := visible ∪ (canReach[node]?).getD ∅
  let both := canReach.toList.foldl (fun visible entry =>
    if entry.2.contains node && entry.1 != node then visible.insert entry.1 else visible) outgoing
  both.erase node

def compilePolicy (policy : Policy) (nodes : List CompileNode) : CompiledPolicy :=
  let network := policy.acls.foldl (compileAcl policy nodes) {}
  let granted := policy.grants.foldl (compileGrant policy nodes) network.compiled
  let complete := completeNodes nodes granted
  { complete with peerVisibility := complete.peerVisibility.map (visiblePeers network.canReach) }

/-! ## Node attributes -/

/-- Whether a `nodeAttrs` target matches the node. -/
def nodeAttrTargetMatches (policy : Policy) (target : String) (node : CompileNode) : Bool :=
  if target = "*" then true
  else
    match stripPrefix "autogroup:" target with
    | some rest =>
      if rest = "self" then true
      else if rest = "member" then node.tags.isEmpty
      else if rest = "tagged" then !node.tags.isEmpty
      else false
    | none =>
      match stripPrefix "tag:" target with
      | some tag => if tag = "" then false else node.tags.any (· == target)
      | none =>
        if startsWith "group:" target then
          node.userLogin.any fun login => principalMatchesUser policy target login
        else node.userLogin.any (· == target)

def nodeAttributes (policy : Policy) (node : CompileNode) : BTreeMap String (List JsonValue) :=
  policy.nodeAttrs.foldl (fun attrs grant =>
    if grant.target.any fun target => nodeAttrTargetMatches policy target node then
      grant.attr.foldl (fun attrs attr => attrs.insert attr []) attrs
    else attrs) ∅

end Crabscale.Policy
