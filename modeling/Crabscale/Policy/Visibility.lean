import Crabscale.Policy.Exact
import Crabscale.Policy.Validate

/-!
# Visible peers against the compiled filters

The compiler collects who may reach whom from the nodes that a rule's source and destination match,
and does not look at the ports. A destination with an empty port list makes two nodes see each other
although no filter admits anything. `peer_visible_iff_flow` says exactly where the two agree.
-/

namespace Crabscale.Policy

open Rust Proto

def CompiledPolicy.peersOf (compiled : CompiledPolicy) (id : Nat) : BTreeSet Nat :=
  (compiled.peerVisibility[id]?).getD ∅

/-- A network rule of the node `dst` admits some flow from the node `src`. -/
def CompiledPolicy.FlowAdmitted (compiled : CompiledPolicy) (src dst : CompileNode) : Prop :=
  ∃ port proto, ∃ rule ∈ compiled.filtersOf dst.id, FilterRule.Admits rule src port proto

/-- A rule of the policy has a source that matches `src` and a destination that matches `dst`, with
ports of some kind. -/
def LinkedOn (policy : Policy) (kind : List NetPortRange → Prop) (src dst : CompileNode) : Prop :=
  ∃ acl ∈ policy.acls, (resolve policy acl.src).matchesNode src = true ∧
    ∃ entry ∈ acl.dst, ∃ target ∈ parseDst policy entry,
      target.matchesNode dst = true ∧ kind target.ports

/-- A rule names the two nodes, in either direction. -/
def Linked (policy : Policy) (kind : List NetPortRange → Prop) (a b : CompileNode) : Prop :=
  LinkedOn policy kind a b ∨ LinkedOn policy kind b a

/-! ## The reachability pass -/

section Reach

variable {policy : Policy} {nodes srcNodes : List CompileNode} {srcIps : List String}
  {ipProto : Option (List Int)} {a b : Nat}

/-- The pass has recorded that the node `a` may reach the node `b`. -/
def Reaches (canReach : BTreeMap Nat (BTreeSet Nat)) (a b : Nat) : Prop :=
  b ∈ (canReach[a]?).getD ∅

theorem reaches_alter {canReach : BTreeMap Nat (BTreeSet Nat)} {s : Nat} {ids : List CompileNode} :
    Reaches (canReach.alter s fun reach =>
        some (ids.foldl (fun reach d => reach.insert d.id) (reach.getD ∅))) a b ↔
      Reaches canReach a b ∨ (s = a ∧ ∃ d ∈ ids, d.id = b) := by
  have hinsert : ∀ reach : BTreeSet Nat, b ∈ ids.foldl (fun reach d => reach.insert d.id) reach ↔
      b ∈ reach ∨ ∃ d ∈ ids, d.id = b :=
    foldl_iff_exists (P := fun reach : BTreeSet Nat => b ∈ reach) (fun reach d => by
      rw [Std.ExtTreeSet.mem_insert, Std.LawfulEqOrd.compare_eq_iff_eq, or_comm]) ids
  unfold Reaches
  rw [Std.ExtTreeMap.getElem?_alter]
  by_cases hs : s = a
  · subst hs
    simp [hinsert]
  · have hne : compare s a ≠ .eq := fun h => hs (Std.LawfulEqOrd.compare_eq_iff_eq.mp h)
    simp [hs, hne]

theorem reaches_compile_dst {state : CompileState} {dst : String} :
    Reaches (compileDst policy nodes srcNodes srcIps ipProto state dst).canReach a b ↔
      Reaches state.canReach a b ∨ ((∃ s ∈ srcNodes, s.id = a) ∧
        ∃ target ∈ parseDst policy dst, ∃ d ∈ nodes, target.matchesNode d = true ∧ d.id = b) := by
  unfold compileDst
  cases hdst : parseDst policy dst with
  | none => simp
  | some target =>
    simp only [Option.mem_some_iff, exists_eq_left']
    rw [foldl_iff_exists (P := fun canReach => Reaches canReach a b)
      (Q := fun s : CompileNode =>
        s.id = a ∧ ∃ d ∈ nodes.filter target.matchesNode, d.id = b) (fun _ _ => reaches_alter)]
    simp only [List.mem_filter]
    grind

/-- What the pass records for one network rule. -/
def LinkedIds (policy : Policy) (nodes : List CompileNode) (a b : Nat) (acl : Acl) : Prop :=
  (∃ s ∈ nodes, (resolve policy acl.src).matchesNode s = true ∧ s.id = a) ∧
    ∃ entry ∈ acl.dst, ∃ target ∈ parseDst policy entry,
      ∃ d ∈ nodes, target.matchesNode d = true ∧ d.id = b

theorem reaches_compile_acl {state : CompileState} {acl : Acl} :
    Reaches (compileAcl policy nodes state acl).canReach a b ↔
      Reaches state.canReach a b ∨
        ((resolve policy acl.src).toSrcIps nodes ≠ [] ∧ LinkedIds policy nodes a b acl) := by
  unfold compileAcl
  dsimp only
  split
  case isTrue hempty => simp [hempty]
  case isFalse hsources =>
    rw [foldl_iff_exists (P := fun state : CompileState => Reaches state.canReach a b)
      (Q := fun dst => (∃ s ∈ nodes.filter (resolve policy acl.src).matchesNode, s.id = a) ∧
        ∃ target ∈ parseDst policy dst, ∃ d ∈ nodes, target.matchesNode d = true ∧ d.id = b)
      (fun _ _ => reaches_compile_dst)]
    simp only [LinkedIds, List.mem_filter]
    grind

theorem reaches_of_acls :
    Reaches (policy.acls.foldl (compileAcl policy nodes) {}).canReach a b ↔
      ∃ acl ∈ policy.acls,
        (resolve policy acl.src).toSrcIps nodes ≠ [] ∧ LinkedIds policy nodes a b acl := by
  rw [foldl_iff_exists (P := fun state : CompileState => Reaches state.canReach a b)
    (Q := fun acl => (resolve policy acl.src).toSrcIps nodes ≠ [] ∧ LinkedIds policy nodes a b acl)
    (fun _ _ => reaches_compile_acl)]
  simp [Reaches]

theorem reaches_iff_linked_on (hnodes : HostNodes nodes) {src dst : CompileNode}
    (hsrc : src ∈ nodes) (hdst : dst ∈ nodes) :
    Reaches (policy.acls.foldl (compileAcl policy nodes) {}).canReach src.id dst.id ↔
      LinkedOn policy (fun _ => True) src dst := by
  have hsame : ∀ {x y : CompileNode}, x ∈ nodes → y ∈ nodes → x.id = y.id → x = y :=
    fun hx hy hid => List.inj_on_of_nodup_map hnodes.ids hx hy hid
  rw [reaches_of_acls]
  constructor
  · rintro ⟨acl, hacl, -, ⟨s, hs, hmatch, hid⟩, entry, hentry, target, hparse, d, hd, hmatch', hid'⟩
    obtain rfl := hsame hs hsrc hid
    obtain rfl := hsame hd hdst hid'
    exact ⟨acl, hacl, hmatch, entry, hentry, target, hparse, hmatch', trivial⟩
  · rintro ⟨acl, hacl, hmatch, entry, hentry, target, hparse, hmatch', -⟩
    -- A source that matches a node emits that node's addresses.
    have hcovers := (covers_to_src_ips_iff hnodes (networks_resolve policy acl.src) hsrc).mpr hmatch
    exact ⟨acl, hacl, src_ips_ne_nil_of_covers hcovers, ⟨src, hsrc, hmatch, rfl⟩, entry, hentry,
      target, hparse, dst, hdst, hmatch', rfl⟩

end Reach

/-! ## Visibility -/

theorem mem_visible_peers {canReach : BTreeMap Nat (BTreeSet Nat)} {a b : Nat} :
    b ∈ visiblePeers canReach a ∅ ↔ b ≠ a ∧ (Reaches canReach a b ∨ Reaches canReach b a) := by
  have hloop : ∀ visible : BTreeSet Nat,
      b ∈ canReach.toList.foldl (fun visible entry =>
        if entry.2.contains a && entry.1 != a then visible.insert entry.1 else visible) visible ↔
      b ∈ visible ∨ ∃ entry ∈ canReach.toList, (a ∈ entry.2 ∧ entry.1 ≠ a) ∧ entry.1 = b :=
    foldl_iff_exists (P := fun visible : BTreeSet Nat => b ∈ visible) (fun visible entry => by
      by_cases hentry : a ∈ entry.2 ∧ entry.1 ≠ a
      · simp [hentry, or_comm]
      · have hskip : (entry.2.contains a && entry.1 != a) = false := by
          simpa using hentry
        simp [hskip, hentry]) _
  have hback : (∃ entry ∈ canReach.toList, (a ∈ entry.2 ∧ entry.1 ≠ a) ∧ entry.1 = b) ↔
      b ≠ a ∧ Reaches canReach b a := by
    constructor
    · rintro ⟨⟨from', tos⟩, hentry, ⟨hmem, hne⟩, rfl⟩
      rw [Std.ExtTreeMap.mem_toList_iff_getElem?_eq_some] at hentry
      refine ⟨hne, ?_⟩
      rw [Reaches, hentry]
      exact hmem
    · rintro ⟨hne, hreaches⟩
      unfold Reaches at hreaches
      cases htos : canReach[b]? with
      | none => simp [htos] at hreaches
      | some tos =>
        rw [htos] at hreaches
        exact ⟨(b, tos), Std.ExtTreeMap.mem_toList_iff_getElem?_eq_some.mpr htos,
          ⟨hreaches, hne⟩, rfl⟩
  unfold visiblePeers
  simp only [Std.ExtTreeSet.mem_erase, hloop, hback]
  simp only [Std.ExtTreeSet.mem_union_iff, Std.ExtTreeSet.not_mem_empty, false_or]
  change compare a b ≠ .eq ∧ (Reaches canReach a b ∨ _) ↔ _
  rw [ne_eq, Std.LawfulEqOrd.compare_eq_iff_eq, eq_comm]
  tauto

theorem peers_of_compile_policy {policy : Policy} {nodes : List CompileNode} {node : CompileNode}
    (hnode : node ∈ nodes) :
    (compilePolicy policy nodes).peersOf node.id =
      visiblePeers (policy.acls.foldl (compileAcl policy nodes) {}).canReach node.id ∅ := by
  have hentry : ∀ visibility : BTreeMap Nat (BTreeSet Nat),
      (nodes.foldl (fun visibility node => visibility.insert node.id ∅) visibility)[node.id]? =
        some ∅ := by
    intro visibility
    refine (foldl_iff_exists (P := fun visibility : BTreeMap Nat (BTreeSet Nat) =>
      visibility[node.id]? = some ∅) (Q := fun other : CompileNode => other.id = node.id)
      (fun visibility other => ?_) nodes visibility).mpr (.inr ⟨node, hnode, rfl⟩)
    rw [Std.ExtTreeMap.getElem?_insert]
    by_cases hid : other.id = node.id <;> simp [hid]
  simp only [CompiledPolicy.peersOf, compilePolicy, completeNodes]
  rw [Std.ExtTreeMap.getElem?_map, hentry]
  rfl

/-- Between two nodes of the list, visibility follows what the rules name, whatever their ports. -/
theorem mem_peers_iff_linked {policy : Policy} {nodes : List CompileNode} (hnodes : HostNodes nodes)
    {n p : CompileNode} (hn : n ∈ nodes) (hp : p ∈ nodes) :
    p.id ∈ (compilePolicy policy nodes).peersOf n.id ↔
      p ≠ n ∧ Linked policy (fun _ => True) n p := by
  rw [peers_of_compile_policy hn, mem_visible_peers, reaches_iff_linked_on hnodes hn hp,
    reaches_iff_linked_on hnodes hp hn]
  have hid : p.id ≠ n.id ↔ p ≠ n :=
    not_congr ⟨List.inj_on_of_nodup_map hnodes.ids hp hn, fun h => congrArg CompileNode.id h⟩
  rw [hid]
  rfl

/-! ## Flows -/

theorem ports_of_parse_dst {policy : Policy} {entry : String} {target : DstTarget}
    (h : target ∈ parseDst policy entry) : ∃ ports, target.ports = parsePorts ports := by
  unfold parseDst at h
  split at h
  · cases h
    exact ⟨"*", rfl⟩
  · split at h
    · cases h
      exact ⟨_, rfl⟩
    · split at h
      · cases h
        exact ⟨_, rfl⟩
      · cases h
        exact ⟨"*", rfl⟩

theorem exists_proto_in (proto : Option String) :
    ∃ number, ProtoIn number (parseIpProto proto) := by
  cases hproto : parseIpProto proto with
  | none => exact ⟨0, by simp [ProtoIn]⟩
  | some protos =>
    have hsingle : ∃ number, protos = [number] := by
      cases proto with
      | none => cases hproto
      | some proto =>
        simp only [parseIpProto, Option.bind_eq_bind, Option.bind_some] at hproto
        split at hproto
        · cases hproto
        · split at hproto
          · cases hproto
            exact ⟨_, rfl⟩
          · obtain ⟨number, -, rfl⟩ := Option.map_eq_some_iff.mp hproto
            exact ⟨number, rfl⟩
    obtain ⟨number, rfl⟩ := hsingle
    exact ⟨number, by simp [ProtoIn]⟩

theorem flow_admitted_iff {policy : Policy} {nodes : List CompileNode} (hnodes : HostNodes nodes)
    {src dst : CompileNode} (hsrc : src ∈ nodes) (hdst : dst ∈ nodes) :
    (compilePolicy policy nodes).FlowAdmitted src dst ↔ LinkedOn policy (· ≠ []) src dst := by
  have hcover := @filters_cover_iff policy nodes hnodes src dst hsrc hdst
    fun ports protos => ∃ port proto, PortIn port ports ∧ ProtoIn proto protos
  constructor
  · rintro ⟨port, proto, rule, hrule, hnetwork, hsource, hport, hproto⟩
    obtain ⟨acl, hacl, hmatch, entry, hentry, target, hparse, hdst, port, -,
      ⟨range, hrange, -⟩, -⟩ :=
      hcover.mp ⟨rule, hrule, hnetwork, hsource, port, proto, hport, hproto⟩
    exact ⟨acl, hacl, hmatch, entry, hentry, target, hparse, hdst, List.ne_nil_of_mem hrange⟩
  · rintro ⟨acl, hacl, hmatch, entry, hentry, target, hparse, hdst, hports⟩
    obtain ⟨range, hrange⟩ := List.exists_mem_of_ne_nil _ hports
    obtain ⟨ports, hparsed⟩ := ports_of_parse_dst hparse
    have hle := first_le_last_of_parse_ports (hparsed ▸ hrange)
    obtain ⟨proto, hproto⟩ := exists_proto_in acl.proto
    obtain ⟨rule, hrule, hnetwork, hsource, port, proto, hport, hproto⟩ :=
      hcover.mpr ⟨acl, hacl, hmatch, entry, hentry, target, hparse, hdst, range.first, proto,
        ⟨range, hrange, Nat.le_refl _, hle⟩, hproto⟩
    exact ⟨port, proto, rule, hrule, hnetwork, hsource, hport, hproto⟩

/-- Rules that name two nodes name them on some ports too. -/
def PortsNamed (policy : Policy) (n p : CompileNode) : Prop :=
  Linked policy (fun _ => True) n p → Linked policy (· ≠ []) n p

/-- Visibility is a symmetric relation, and it says of two different nodes that a filter admits a
flow between them exactly when the rules that name both name a port. -/
theorem peer_visible_iff_flow (policy : Policy) {nodes : List CompileNode}
    (hnodes : HostNodes nodes) {n p : CompileNode} (hn : n ∈ nodes) (hp : p ∈ nodes) :
    ((p.id ∈ (compilePolicy policy nodes).peersOf n.id ↔
        p ≠ n ∧ ((compilePolicy policy nodes).FlowAdmitted n p ∨
          (compilePolicy policy nodes).FlowAdmitted p n)) ↔
      p = n ∨ PortsNamed policy n p) ∧
    (p.id ∈ (compilePolicy policy nodes).peersOf n.id ↔
      n.id ∈ (compilePolicy policy nodes).peersOf p.id) := by
  have hflow : Linked policy (· ≠ []) n p ↔ (compilePolicy policy nodes).FlowAdmitted n p ∨
      (compilePolicy policy nodes).FlowAdmitted p n :=
    or_congr (flow_admitted_iff hnodes hn hp).symm (flow_admitted_iff hnodes hp hn).symm
  have hweaken : Linked policy (· ≠ []) n p → Linked policy (fun _ => True) n p := by
    rintro (⟨acl, hacl, hmatch, entry, hentry, target, hparse, hdst, -⟩ |
      ⟨acl, hacl, hmatch, entry, hentry, target, hparse, hdst, -⟩)
    · exact .inl ⟨acl, hacl, hmatch, entry, hentry, target, hparse, hdst, trivial⟩
    · exact .inr ⟨acl, hacl, hmatch, entry, hentry, target, hparse, hdst, trivial⟩
  rw [mem_peers_iff_linked hnodes hn hp, mem_peers_iff_linked hnodes hp hn, ← hflow]
  refine ⟨⟨fun h => ?_, ?_⟩, ?_⟩
  · by_cases hsame : p = n
    · exact .inl hsame
    · exact .inr fun hlinked => (h.mp ⟨hsame, hlinked⟩).2
  · rintro (hsame | hnamed)
    · exact ⟨fun h => absurd hsame h.1, fun h => absurd hsame h.1⟩
    · exact ⟨fun h => ⟨h.1, hnamed h.2⟩, fun h => ⟨h.1, hweaken h.2⟩⟩
  · exact and_congr ne_comm or_comm

/-- The laptop and the server see each other, and a filter admits a flow between them. -/
theorem peer_visible_iff_flow_web :
    2 ∈ (compilePolicy webPolicy webNodes).peersOf 1 ↔
      webNodes.get ⟨1, by decide⟩ ≠ webNodes.get ⟨0, by decide⟩ ∧
        ((compilePolicy webPolicy webNodes).FlowAdmitted (webNodes.get ⟨0, by decide⟩)
            (webNodes.get ⟨1, by decide⟩) ∨
          (compilePolicy webPolicy webNodes).FlowAdmitted (webNodes.get ⟨1, by decide⟩)
            (webNodes.get ⟨0, by decide⟩)) := by
  refine (peer_visible_iff_flow webPolicy host_nodes_web_nodes
    (List.get_mem webNodes ⟨0, by decide⟩)
    (List.get_mem webNodes ⟨1, by decide⟩)).1.mpr (.inr fun _ => .inl ?_)
  exact ⟨_, List.mem_singleton.mpr rfl, by decide +kernel, _, List.mem_singleton.mpr rfl, _, rfl,
    by decide +kernel, by decide +kernel⟩

/-- The service is named where its port should stand. -/
def portlessPolicy : Policy where
  acls := [{ action := "accept", src := ["alice@example.com"], dst := ["tag:web:https"] }]

/-- The validator accepts the policy, the nodes see each other, and no filter admits anything. -/
theorem peer_visible_without_flow :
    validatePolicy "" portlessPolicy = .ok () ∧ HostNodes webNodes ∧
      2 ∈ (compilePolicy portlessPolicy webNodes).peersOf 1 ∧
      ∀ src dst, dst ∈ webNodes →
        ¬(compilePolicy portlessPolicy webNodes).FlowAdmitted src dst := by
  refine ⟨by decide +kernel, host_nodes_web_nodes, by decide +kernel, ?_⟩
  rintro src dst hdst ⟨port, proto, rule, hrule, hadmits⟩
  have hempty : ∀ dst ∈ webNodes, ∀ rule ∈ (compilePolicy portlessPolicy webNodes).filtersOf dst.id,
      rule.dstPorts = [] := by
    decide +kernel
  obtain ⟨range, hrange, -⟩ := hadmits.port
  rw [hempty dst hdst rule hrule] at hrange
  cases hrange

end Crabscale.Policy
