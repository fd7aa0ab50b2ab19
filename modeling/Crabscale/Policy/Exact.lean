import Crabscale.Policy.Compile

/-!
# Exactness of the compiled packet filters

A node's compiled filter admits a flow exactly when some rule allows it, for nodes whose addresses
are single hosts that no two nodes share: the filter is read off the loops of the compiler
(`filters_of_compile_policy`), and the emitted source addresses cover the nodes of the resolved
source (`covers_to_src_ips_iff`).
-/

namespace Crabscale.Policy

open Rust Proto

def CompiledPolicy.filtersOf (compiled : CompiledPolicy) (id : Nat) : List FilterRule :=
  entriesAt compiled.nodeFilters id

/-- Source address strings cover a node: one of its addresses lies in an entry, or `*` is there. -/
def Covers (srcIps : List String) (node : CompileNode) : Prop :=
  (∃ addr ∈ node.addresses, ∃ net ∈ srcIps, LiesIn addr net) ∨ "*" ∈ srcIps

def PortIn (port : Nat) (ranges : List NetPortRange) : Prop :=
  ∃ range ∈ ranges, range.first ≤ port ∧ port ≤ range.last

def ProtoIn (proto : Int) (ipProto : Option (List Int)) : Prop :=
  ∀ protos ∈ ipProto, proto ∈ protos

instance (port : Nat) (ranges : List NetPortRange) : Decidable (PortIn port ranges) :=
  inferInstanceAs (Decidable (∃ range ∈ ranges, range.first ≤ port ∧ port ≤ range.last))

instance (proto : Int) (ipProto : Option (List Int)) : Decidable (ProtoIn proto ipProto) :=
  inferInstanceAs (Decidable (∀ protos ∈ ipProto, proto ∈ protos))

theorem first_le_last_of_parse_ports {ports : String} {range : NetPortRange}
    (h : range ∈ parsePorts ports) : range.first ≤ range.last := by
  unfold parsePorts at h
  split at h
  · rw [allPorts, List.mem_singleton] at h
    subst h
    exact Nat.zero_le _
  · obtain ⟨item, -, hitem⟩ := List.mem_flatMap.mp h
    unfold parsePortItem at hitem
    dsimp only at hitem
    split_ifs at hitem with hempty
    · cases hitem
    · split at hitem
      · split at hitem
        · split_ifs at hitem with hle
          · rw [List.mem_singleton] at hitem
            subst hitem
            exact hle
          · cases hitem
        · cases hitem
      · split at hitem
        · rw [List.mem_singleton] at hitem
          subst hitem
          exact Nat.le_refl _
        · cases hitem

/-- A network rule that admits a flow from `src` to a port under a protocol. -/
structure FilterRule.Admits (rule : FilterRule) (src : CompileNode) (port : Nat) (proto : Int) :
    Prop where
  network : rule.capGrant = []
  source : Covers rule.srcIps src
  port : PortIn port rule.dstPorts
  proto : ProtoIn proto rule.ipProto

/-- A policy rule that allows a flow from `src` to a port of `dst` under a protocol, read off the
rule's own text. -/
structure Acl.Allows (policy : Policy) (rule : Acl) (src dst : CompileNode) (port : Nat)
    (proto : Int) : Prop where
  source : (resolve policy rule.src).matchesNode src = true
  destination : ∃ entry ∈ rule.dst, ∃ target ∈ parseDst policy entry,
    target.matchesNode dst = true ∧ PortIn port target.ports
  proto : ProtoIn proto (parseIpProto rule.proto)

/-- The nodes the compiler is given: distinct ids, and addresses that are single hosts, at least one
for each node and none shared. -/
structure HostNodes (nodes : List CompileNode) : Prop where
  ids : (nodes.map CompileNode.id).Nodup
  addressed : ∀ node ∈ nodes, node.addresses ≠ []
  hosts : ∀ node ∈ nodes, ∀ addr ∈ node.addresses, IsHost addr
  disjoint : ∀ a ∈ nodes, ∀ b ∈ nodes, a ≠ b → ∀ addr ∈ a.addresses, ∀ other ∈ b.addresses,
    (parseCidr addr).map Prod.fst ≠ (parseCidr other).map Prod.fst

/-! ## What the compiler files under a node -/

section Filters

variable {policy : Policy} {nodes srcNodes : List CompileNode} {srcIps : List String}
  {ipProto : Option (List Int)} {rule : FilterRule} {id : Nat}

def dstFilters (policy : Policy) (nodes : List CompileNode) (id : Nat) (srcIps : List String)
    (ipProto : Option (List Int)) (dst : String) : List FilterRule :=
  match parseDst policy dst with
  | none => []
  | some target => nodes.flatMap fun node =>
    if target.matchesNode node = true ∧ node.id = id then
      [{ srcIps, dstPorts := target.ports, ipProto }]
    else []

def aclFilters (policy : Policy) (nodes : List CompileNode) (id : Nat) (acl : Acl) :
    List FilterRule :=
  let srcIps := (resolve policy acl.src).toSrcIps nodes
  if srcIps = [] then []
  else acl.dst.flatMap (dstFilters policy nodes id srcIps (parseIpProto acl.proto))

def grantFilters (policy : Policy) (nodes : List CompileNode) (id : Nat) (grant : Grant) :
    List FilterRule :=
  let srcIps := (resolve policy grant.src).toSrcIps nodes
  if srcIps = [] then []
  else nodes.flatMap fun node =>
    if ((grant.dst.filterMap (parseDst policy)).any fun target => target.matchesNode node) = true ∧
        node.id = id then
      [{ srcIps
         capGrant :=
          [{ dsts := node.addresses, capMap := grant.app.map fun _ value => valuesOf value }] }]
    else []

theorem filters_of_compile_dst (state : CompileState) (dst : String) :
    (compileDst policy nodes srcNodes srcIps ipProto state dst).compiled.filtersOf id =
      state.compiled.filtersOf id ++ dstFilters policy nodes id srcIps ipProto dst := by
  unfold compileDst dstFilters
  cases parseDst policy dst with
  | none => exact (List.append_nil _).symm
  | some target => exact entries_at_push_kept CompileNode.id nodes _ target.matchesNode _ id

theorem filters_of_compile_acl (state : CompileState) (acl : Acl) :
    (compileAcl policy nodes state acl).compiled.filtersOf id =
      state.compiled.filtersOf id ++ aclFilters policy nodes id acl := by
  unfold compileAcl aclFilters
  dsimp only
  split
  case isTrue => exact (List.append_nil _).symm
  case isFalse =>
    exact foldl_append_flatMap (L := fun state : CompileState => state.compiled.filtersOf id)
      filters_of_compile_dst _ _

theorem filters_of_compile_grant (compiled : CompiledPolicy) (grant : Grant) :
    (compileGrant policy nodes compiled grant).filtersOf id =
      compiled.filtersOf id ++ grantFilters policy nodes id grant := by
  unfold compileGrant grantFilters
  dsimp only
  split
  case isTrue => exact (List.append_nil _).symm
  case isFalse =>
    apply foldl_append_flatMap (L := fun compiled : CompiledPolicy => compiled.filtersOf id)
    intro compiled node
    split
    case isTrue hmatch => simp only [hmatch, true_and, CompiledPolicy.filtersOf, entries_at_push]
    case isFalse hmatch => rw [if_neg fun h => hmatch h.1, List.append_nil]

/-- The filter compiled for a node: what the network rules give it, then what the grants give it. -/
theorem filters_of_compile_policy :
    (compilePolicy policy nodes).filtersOf id =
      policy.acls.flatMap (aclFilters policy nodes id) ++
        policy.grants.flatMap (grantFilters policy nodes id) := by
  show entriesAt (nodes.foldl _ (policy.grants.foldl (compileGrant policy nodes)
    (policy.acls.foldl (compileAcl policy nodes) {}).compiled).nodeFilters) id = _
  -- Giving every node a filter adds no rule.
  rw [entries_at_touch_all]
  have hacls := foldl_append_flatMap (L := fun state : CompileState => state.compiled.filtersOf id)
    (f := aclFilters policy nodes id) filters_of_compile_acl policy.acls {}
  refine (foldl_append_flatMap (L := fun compiled : CompiledPolicy => compiled.filtersOf id)
    filters_of_compile_grant policy.grants _).trans ?_
  rw [hacls, CompiledPolicy.filtersOf, entries_at_empty, List.nil_append]

structure EmittedFor (policy : Policy) (nodes : List CompileNode) (id : Nat) (acl : Acl)
    (rule : FilterRule) (target : DstTarget) : Prop where
  entry : ∃ dst ∈ acl.dst, parseDst policy dst = some target
  destination : ∃ node ∈ nodes, target.matchesNode node = true ∧ node.id = id
  sources : (resolve policy acl.src).toSrcIps nodes ≠ []
  rule_eq : rule =
    { srcIps := (resolve policy acl.src).toSrcIps nodes
      dstPorts := target.ports
      ipProto := parseIpProto acl.proto }

theorem mem_dst_filters {dst : String} :
    rule ∈ dstFilters policy nodes id srcIps ipProto dst ↔
      ∃ target, parseDst policy dst = some target ∧
        (∃ node ∈ nodes, target.matchesNode node = true ∧ node.id = id) ∧
        rule = { srcIps, dstPorts := target.ports, ipProto } := by
  unfold dstFilters
  cases parseDst policy dst with
  | none => simp
  | some target =>
    simp only [List.mem_flatMap, List.mem_ite_nil_right, List.mem_singleton, Option.some.injEq,
      exists_eq_left']
    constructor
    · rintro ⟨node, hnode, hmatch, hrule⟩
      exact ⟨⟨node, hnode, hmatch⟩, hrule⟩
    · rintro ⟨⟨node, hnode, hmatch⟩, hrule⟩
      exact ⟨node, hnode, hmatch, hrule⟩

theorem mem_acl_filters {acl : Acl} :
    rule ∈ aclFilters policy nodes id acl ↔
      ∃ target, EmittedFor policy nodes id acl rule target := by
  unfold aclFilters
  dsimp only
  split
  case isTrue hempty =>
    refine ⟨nofun, ?_⟩
    rintro ⟨target, hemitted⟩
    exact absurd hempty hemitted.sources
  case isFalse hsources =>
    simp only [List.mem_flatMap, mem_dst_filters]
    constructor
    · rintro ⟨dst, hdst, target, hparse, hnode, hrule⟩
      exact ⟨target, ⟨dst, hdst, hparse⟩, hnode, hsources, hrule⟩
    · rintro ⟨target, ⟨dst, hdst, hparse⟩, hnode, -, hrule⟩
      exact ⟨dst, hdst, target, hparse, hnode, hrule⟩

theorem cap_grant_of_mem_grant_filters {grant : Grant}
    (h : rule ∈ grantFilters policy nodes id grant) : rule.capGrant ≠ [] := by
  unfold grantFilters at h
  dsimp only at h
  split at h
  case isTrue => cases h
  case isFalse =>
    simp only [List.mem_flatMap, List.mem_ite_nil_right, List.mem_singleton] at h
    obtain ⟨node, -, -, rfl⟩ := h
    exact List.cons_ne_nil _ _

theorem mem_filters_of_compile_policy (hnetwork : rule.capGrant = []) :
    rule ∈ (compilePolicy policy nodes).filtersOf id ↔
      ∃ acl ∈ policy.acls, ∃ target, EmittedFor policy nodes id acl rule target := by
  simp only [filters_of_compile_policy, List.mem_append, List.mem_flatMap, mem_acl_filters]
  refine or_iff_left ?_
  rintro ⟨grant, -, hmem⟩
  exact cap_grant_of_mem_grant_filters hmem hnetwork

end Filters

/-! ## The emitted source addresses -/

/-- Every network string of a target has a `/`, so none of them is `*`. -/
def ResolvedTarget.Networks (target : ResolvedTarget) : Prop :=
  ∀ net ∈ target.nets, '/' ∈ net.toList

theorem normalize_cidr_slash {s : String} (h : isIpOrCidrStr s = true) :
    '/' ∈ (normalizeCidr s).toList := by
  unfold normalizeCidr
  cases hip : parseIp s with
  | some ip => simp
  | none =>
    unfold isIpOrCidrStr at h
    rw [hip] at h
    cases hsplit : splitOnce '/' s with
    | none => simp [hsplit] at h
    | some parts => simp [(split_once_eq_some.mp hsplit).1]

variable {target : ResolvedTarget}

theorem networks_of_nets_nil (h : target.nets = []) : target.Networks := by
  simp [ResolvedTarget.Networks, h]

theorem networks_resolve_autogroup (rest : String) : (resolveAutogroup rest).Networks := by
  apply networks_of_nets_nil
  unfold resolveAutogroup
  split_ifs <;> rfl

theorem networks_normalize {s : String} (h : isIpOrCidrStr s = true) :
    ResolvedTarget.Networks { nets := [normalizeCidr s] } := by
  simpa [ResolvedTarget.Networks] using normalize_cidr_slash h

theorem networks_resolve_host (policy : Policy) (name : String) :
    (resolveHost policy name).Networks := by
  unfold resolveHost
  split
  · split
    case isTrue hvalue => exact networks_normalize hvalue
    case isFalse => exact networks_of_nets_nil rfl
  · exact networks_of_nets_nil rfl

theorem ResolvedTarget.Networks.append {a b c : ResolvedTarget} (ha : a.Networks) (hb : b.Networks)
    (hc : c.nets = a.nets ++ b.nets) : c.Networks := by
  intro net hnet
  rw [hc, List.mem_append] at hnet
  exact hnet.elim (ha net) (hb net)

theorem networks_resolve_single (policy : Policy) (depth : Nat) (resolving : BTreeSet String)
    (target : String) : (resolveSingleWithin policy depth resolving target).Networks := by
  induction depth generalizing resolving target with
  | zero => exact networks_of_nets_nil rfl
  | succ depth ih =>
    unfold resolveSingleWithin
    split
    · exact networks_of_nets_nil rfl
    split
    · exact networks_resolve_autogroup _
    split
    · split
      · exact networks_of_nets_nil rfl
      · exact List.foldlRecOn _ _ (networks_of_nets_nil rfl)
          fun resolved hresolved member _ => hresolved.append (ih _ member) rfl
    · split_ifs with _ _ hnet
      · exact networks_of_nets_nil rfl
      · exact networks_of_nets_nil rfl
      · exact networks_normalize hnet
      · exact networks_resolve_host _ _

theorem networks_resolve (policy : Policy) (targets : List String) :
    (resolve policy targets).Networks := by
  have hmerged : (targets.foldl (fun (resolved : ResolvedTarget) target =>
      resolved.merge (resolveSingle policy target)) {}).Networks :=
    List.foldlRecOn _ _ (networks_of_nets_nil rfl)
      fun resolved hresolved target _ =>
        hresolved.append (networks_resolve_single policy _ _ target) rfl
  intro net hnet
  exact hmerged net (mem_sort_dedup.mp hnet)

theorem matches_node_iff {node : CompileNode} :
    target.matchesNode node = true ↔
      target.wildcard = true ∨
        (target.autogroupMatch node = true ∨ target.identityMatch node = true) ∨
        ∃ net ∈ target.nets, ∃ addr ∈ node.addresses, LiesIn addr net := by
  simp only [ResolvedTarget.matchesNode, ResolvedTarget.autogroupMatch, ← addr_in_cidr_iff]
  cases target.wildcard <;> cases target.selfMatch <;> cases target.identityMatch node <;>
    cases target.memberMatch && node.tags.isEmpty <;>
    cases target.taggedMatch && !node.tags.isEmpty <;> simp

theorem mem_to_src_ips {nodes : List CompileNode} {ip : String}
    (hwildcard : target.wildcard = false) :
    ip ∈ target.toSrcIps nodes ↔
      ip ∈ target.nets ∨ ∃ node ∈ nodes,
        (target.autogroupMatch node = true ∨ target.identityMatch node = true) ∧
          ip ∈ node.addresses := by
  simp only [ResolvedTarget.toSrcIps, hwildcard, Bool.false_eq_true, if_false, mem_sort_dedup,
    ResolvedTarget.autogroupIps, List.mem_append, List.mem_flatMap, List.mem_ite_nil_right]
  grind

theorem lies_in_self {addr : String} (h : IsHost addr) : LiesIn addr addr := by
  obtain ⟨ip, hip⟩ := h
  exact ⟨ip, _, ip, _, hip, hip, same_network_refl _ _⟩

theorem eq_of_lies_in_host {addr net : String} (hnet : IsHost net) (h : LiesIn addr net) :
    (parseCidr addr).map Prod.fst = (parseCidr net).map Prod.fst := by
  obtain ⟨host, hhost⟩ := hnet
  obtain ⟨ip, addrBits, network, bits, haddr, hparse, hsame⟩ := h
  obtain ⟨rfl, rfl⟩ : host = network ∧ maxBits host = bits := by simpa [hhost] using hparse
  rw [haddr, hparse, same_network_max_bits hsame]
  rfl

theorem covers_to_src_ips_iff {nodes : List CompileNode}
    {node : CompileNode} (hnodes : HostNodes nodes) (hnets : target.Networks)
    (hnode : node ∈ nodes) :
    Covers (target.toSrcIps nodes) node ↔ target.matchesNode node = true := by
  rw [matches_node_iff]
  cases hwildcard : target.wildcard with
  | true => simp [Covers, ResolvedTarget.toSrcIps, hwildcard]
  | false =>
    simp only [Bool.false_eq_true, false_or, Covers, mem_to_src_ips hwildcard]
    constructor
    · rintro (⟨addr, haddr, net, hnet | ⟨other, hother, hmatch, hnet⟩, hlies⟩ |
        hstar | ⟨other, hother, -, hstar⟩)
      · exact .inr ⟨net, hnet, addr, haddr, hlies⟩
      · -- An entry taken from a node's own addresses can only cover that node.
        have hsame : node = other := by
          by_contra hne
          exact hnodes.disjoint node hnode other hother hne addr haddr net hnet
            (eq_of_lies_in_host (hnodes.hosts other hother net hnet) hlies)
        exact .inl (hsame ▸ hmatch)
      · exact absurd (hnets _ hstar) (by decide)
      · obtain ⟨ip, hip⟩ := hnodes.hosts other hother _ hstar
        exact absurd hip (by rw [show parseCidr "*" = none by decide]; simp)
    · rintro (hmatch | ⟨net, hnet, addr, haddr, hlies⟩)
      · obtain ⟨addr, haddr⟩ := List.exists_mem_of_ne_nil _ (hnodes.addressed node hnode)
        exact .inl ⟨addr, haddr, addr, .inr ⟨node, hnode, hmatch, haddr⟩,
          lies_in_self (hnodes.hosts node hnode addr haddr)⟩
      · exact .inl ⟨addr, haddr, net, .inl hnet, hlies⟩

theorem src_ips_ne_nil_of_covers {srcIps : List String} {node : CompileNode}
    (h : Covers srcIps node) : srcIps ≠ [] := by
  rintro rfl
  simp [Covers] at h

/-! ## Exactness -/

/-- A node's compiled filter has a network rule for a source node with ports and protocols of some
kind exactly when a rule of the policy names the two nodes with such ports and protocols. -/
theorem filters_cover_iff {policy : Policy} {nodes : List CompileNode} (hnodes : HostNodes nodes)
    {src dst : CompileNode} (hsrc : src ∈ nodes) (hdst : dst ∈ nodes)
    (P : List NetPortRange → Option (List Int) → Prop) :
    (∃ rule ∈ (compilePolicy policy nodes).filtersOf dst.id,
        rule.capGrant = [] ∧ Covers rule.srcIps src ∧ P rule.dstPorts rule.ipProto) ↔
      ∃ acl ∈ policy.acls, (resolve policy acl.src).matchesNode src = true ∧
        ∃ entry ∈ acl.dst, ∃ target ∈ parseDst policy entry,
          target.matchesNode dst = true ∧ P target.ports (parseIpProto acl.proto) := by
  constructor
  · rintro ⟨rule, hrule, hnetwork, hsource, hkind⟩
    obtain ⟨acl, hacl, target, hemitted⟩ := (mem_filters_of_compile_policy hnetwork).mp hrule
    obtain ⟨node, hnode, hmatch, hid⟩ := hemitted.destination
    obtain ⟨entry, hentry, hparse⟩ := hemitted.entry
    -- Ids are distinct, so the filter of `dst.id` was emitted for `dst` itself.
    obtain rfl : node = dst := List.inj_on_of_nodup_map hnodes.ids hnode hdst hid
    have heq := hemitted.rule_eq
    subst heq
    exact ⟨acl, hacl, (covers_to_src_ips_iff hnodes (networks_resolve _ _) hsrc).mp hsource,
      entry, hentry, target, hparse, hmatch, hkind⟩
  · rintro ⟨acl, hacl, hsource, entry, hentry, target, hparse, hmatch, hkind⟩
    have hcovers := (covers_to_src_ips_iff hnodes (networks_resolve policy acl.src) hsrc).mpr
      hsource
    exact ⟨_, (mem_filters_of_compile_policy rfl).mpr ⟨acl, hacl, target,
      ⟨entry, hentry, hparse⟩, ⟨dst, hdst, hmatch, rfl⟩, src_ips_ne_nil_of_covers hcovers, rfl⟩,
      rfl, hcovers, hkind⟩

/-- A node's compiled filter has a network rule admitting a flow from another node exactly when
some rule of the policy allows that flow. -/
theorem compile_policy_exact (policy : Policy) {nodes : List CompileNode} (hnodes : HostNodes nodes)
    {src dst : CompileNode} (hsrc : src ∈ nodes) (hdst : dst ∈ nodes) (port : Nat) (proto : Int) :
    (∃ rule ∈ (compilePolicy policy nodes).filtersOf dst.id,
        FilterRule.Admits rule src port proto) ↔
      ∃ acl ∈ policy.acls, Acl.Allows policy acl src dst port proto := by
  have hcover := @filters_cover_iff policy nodes hnodes src dst hsrc hdst
    fun ports protos => PortIn port ports ∧ ProtoIn proto protos
  constructor
  · rintro ⟨rule, hrule, hnetwork, hsource, hport, hproto⟩
    obtain ⟨acl, hacl, hmatch, entry, hentry, target, hparse, hdst, hport, hproto⟩ :=
      hcover.mp ⟨rule, hrule, hnetwork, hsource, hport, hproto⟩
    exact ⟨acl, hacl, hmatch, ⟨entry, hentry, target, hparse, hdst, hport⟩, hproto⟩
  · rintro ⟨acl, hacl, hmatch, ⟨entry, hentry, target, hparse, hdst, hport⟩, hproto⟩
    obtain ⟨rule, hrule, hnetwork, hsource, hport, hproto⟩ :=
      hcover.mpr ⟨acl, hacl, hmatch, entry, hentry, target, hparse, hdst, hport, hproto⟩
    exact ⟨rule, hrule, hnetwork, hsource, hport, hproto⟩

def webPolicy : Policy where
  groups := BTreeMap.from [("ops", ["alice@example.com"])]
  acls :=
    [{ action := "accept", src := ["group:ops"], dst := ["tag:web:22,443"], proto := some "tcp" }]

def webNodes : List CompileNode :=
  [{ id := 1, userLogin := some "alice@example.com", addresses := ["100.64.0.1/32"] },
    { id := 2, addresses := ["100.64.0.2/32", "fd7a::2/128"], tags := ["tag:web"] }]

theorem host_nodes_web_nodes : HostNodes webNodes where
  ids := by decide
  addressed := by decide
  hosts := by decide +kernel
  disjoint := by decide +kernel

/-- The laptop's flow to the server's port 443 is in the server's filter. -/
theorem compile_policy_exact_web :
    ∃ rule ∈ (compilePolicy webPolicy webNodes).filtersOf 2,
      FilterRule.Admits rule (webNodes.get ⟨0, by decide⟩) 443 6 :=
  (compile_policy_exact webPolicy host_nodes_web_nodes (List.get_mem webNodes ⟨0, by decide⟩)
    (List.get_mem webNodes ⟨1, by decide⟩) 443 6).mpr
    ⟨_, List.mem_singleton.mpr rfl, by decide +kernel, by decide +kernel, by decide +kernel⟩

end Crabscale.Policy
