import Crabscale.Policy.Visibility
import Crabscale.Policy.WireSsh

/-!
# Nodes that are the source of no rule

A packet filter lists the addresses of the nodes that a source names, an SSH policy their stable
ids. A node that no rule takes as a source can be left out of the compilation (`filters_of_without`,
`wire_ssh_policy_without`). For network rules this follows from visibility (`visible_of_emits`);
capability grants and SSH rules make nothing visible.
-/

namespace Crabscale.Policy

open Rust Proto

def without (nodes : List CompileNode) (p : Nat) : List CompileNode :=
  nodes.filter fun node => node.id ≠ p

def ResolvedTarget.emits (target : ResolvedTarget) (node : CompileNode) : Bool :=
  !target.wildcard && (target.autogroupMatch node || target.identityMatch node) &&
    !node.addresses.isEmpty

def Destines (policy : Policy) (nodes : List CompileNode) (id : Nat) (dst : List String) : Prop :=
  ∃ entry ∈ dst, ∃ target ∈ parseDst policy entry, ∃ node ∈ nodes,
    target.matchesNode node = true ∧ node.id = id

/-- If a destination covers the node of the id `id`, then the addresses of no node of the id `p` are
written out among the sources. -/
def Unquoted (policy : Policy) (nodes : List CompileNode) (id p : Nat) (src dst : List String) :
    Prop :=
  Destines policy nodes id dst →
    ∀ node ∈ nodes, node.id = p → (resolve policy src).emits node = false

/-- If the rule is for the node of the id `id`, then it accepts every source or matches no node of
the id `p`. -/
def SshUnquoted (policy : Policy) (nodes : List CompileNode) (id p : Nat) (rule : SshRule) : Prop :=
  (∃ node ∈ nodes, (resolve policy rule.dst).matchesNode node = true ∧ node.id = id) →
    (compiledSshRule policy nodes rule).srcAll = true ∨
      ∀ node ∈ nodes, node.id = p → (resolve policy rule.src).matchesNode node = false

/-- No rule for the node of the id `id` quotes a node of the id `p`. -/
structure NoSource (policy : Policy) (nodes : List CompileNode) (id p : Nat) : Prop where
  acls : ∀ acl ∈ policy.acls, Unquoted policy nodes id p acl.src acl.dst
  grants : ∀ grant ∈ policy.grants, Unquoted policy nodes id p grant.src grant.dst
  ssh : ∀ rule ∈ policy.ssh, SshUnquoted policy nodes id p rule

section Without

variable {policy : Policy} {nodes : List CompileNode} {id p : Nat} {target : ResolvedTarget}

theorem mem_without {node : CompileNode} : node ∈ without nodes p ↔ node ∈ nodes ∧ node.id ≠ p := by
  simp [without]

theorem flatMap_without {β : Type} {f : CompileNode → List β}
    (h : ∀ node ∈ nodes, node.id = p → f node = []) :
    (without nodes p).flatMap f = nodes.flatMap f :=
  flatMap_filter_of_nil fun node hnode hid => h node hnode (by simpa using hid)

/-! ## Network rules and grants -/

theorem emits_eq_false {node : CompileNode} (h : target.emits node = false)
    (hwildcard : target.wildcard = false)
    (hnamed : target.autogroupMatch node = true ∨ target.identityMatch node = true) :
    node.addresses = [] := by
  simpa [ResolvedTarget.emits, hwildcard, hnamed] using h

theorem to_src_ips_without (h : ∀ node ∈ nodes, node.id = p → target.emits node = false) :
    target.toSrcIps (without nodes p) = target.toSrcIps nodes := by
  unfold ResolvedTarget.toSrcIps ResolvedTarget.autogroupIps
  split
  case isTrue => rfl
  case isFalse hwildcard =>
    have hwildcard := Bool.eq_false_of_not_eq_true hwildcard
    rw [flatMap_without, flatMap_without]
    · intro node hnode hid
      split
      case isTrue hnamed => exact emits_eq_false (h node hnode hid) hwildcard (.inr hnamed)
      case isFalse => rfl
    · intro node hnode hid
      split
      case isTrue hnamed => exact emits_eq_false (h node hnode hid) hwildcard (.inl hnamed)
      case isFalse => rfl

theorem dst_filters_without (hid : id ≠ p) (srcIps : List String) (ipProto : Option (List Int))
    (dst : String) :
    dstFilters policy (without nodes p) id srcIps ipProto dst =
      dstFilters policy nodes id srcIps ipProto dst := by
  unfold dstFilters
  cases parseDst policy dst with
  | none => rfl
  | some target => exact flatMap_without fun node _ hp => if_neg fun h => hid (h.2.symm.trans hp)

theorem acl_filters_eq_nil {acl : Acl} (h : ¬ Destines policy nodes id acl.dst) :
    aclFilters policy nodes id acl = [] := by
  rw [List.eq_nil_iff_forall_not_mem]
  intro rule hrule
  obtain ⟨target, ⟨dst, hdst, hparse⟩, hnode, -, -⟩ := mem_acl_filters.mp hrule
  exact h ⟨dst, hdst, target, hparse, hnode⟩

theorem grant_filters_eq_nil {grant : Grant} (h : ¬ Destines policy nodes id grant.dst) :
    grantFilters policy nodes id grant = [] := by
  unfold grantFilters
  dsimp only
  split
  case isTrue => rfl
  case isFalse =>
    refine List.flatMap_eq_nil_iff.mpr fun node hnode => if_neg ?_
    intro hdst
    obtain ⟨target, htarget, hmatch⟩ := List.any_eq_true.mp hdst.1
    obtain ⟨dst, hdst', hparse⟩ := List.mem_filterMap.mp htarget
    exact h ⟨dst, hdst', target, hparse, node, hnode, hmatch, hdst.2⟩

theorem destines_without {dst : List String} (h : Destines policy (without nodes p) id dst) :
    Destines policy nodes id dst := by
  obtain ⟨entry, hentry, target, hparse, node, hnode, hmatch⟩ := h
  exact ⟨entry, hentry, target, hparse, node, (mem_without.mp hnode).1, hmatch⟩

theorem acl_filters_without (hid : id ≠ p) {acl : Acl}
    (h : Unquoted policy nodes id p acl.src acl.dst) :
    aclFilters policy (without nodes p) id acl = aclFilters policy nodes id acl := by
  by_cases hdst : Destines policy nodes id acl.dst
  · unfold aclFilters
    dsimp only
    rw [to_src_ips_without (h hdst), funext (dst_filters_without hid _ _)]
  · rw [acl_filters_eq_nil hdst, acl_filters_eq_nil fun h => hdst (destines_without h)]

theorem grant_filters_without (hid : id ≠ p) {grant : Grant}
    (h : Unquoted policy nodes id p grant.src grant.dst) :
    grantFilters policy (without nodes p) id grant = grantFilters policy nodes id grant := by
  by_cases hdst : Destines policy nodes id grant.dst
  · unfold grantFilters
    dsimp only
    rw [to_src_ips_without (h hdst), flatMap_without]
    intro node _ hp
    exact if_neg fun h => hid (h.2.symm.trans hp)
  · rw [grant_filters_eq_nil hdst, grant_filters_eq_nil fun h => hdst (destines_without h)]

/-- The packet filter of a node is the same without a node that no rule for it quotes. -/
theorem filters_of_without (hid : id ≠ p) (h : NoSource policy nodes id p) :
    (compilePolicy policy (without nodes p)).filtersOf id =
      (compilePolicy policy nodes).filtersOf id := by
  rw [filters_of_compile_policy, filters_of_compile_policy]
  congr 1
  · exact List.flatMap_congr fun acl hacl => acl_filters_without hid (h.acls acl hacl)
  · exact List.flatMap_congr fun grant hgrant => grant_filters_without hid (h.grants grant hgrant)

theorem visible_of_emits {acl : Acl} (hacl : acl ∈ policy.acls)
    (hdst : Destines policy nodes id acl.dst) {node : CompileNode} (hnode : node ∈ nodes)
    (hne : node.id ≠ id) (hemits : (resolve policy acl.src).emits node = true) :
    node.id ∈ (compilePolicy policy nodes).peersOf id := by
  obtain ⟨entry, hentry, target, hparse, dst, hmem, hmatch, rfl⟩ := hdst
  simp only [ResolvedTarget.emits, Bool.and_eq_true, Bool.or_eq_true, Bool.not_eq_true',
    List.isEmpty_eq_false_iff] at hemits
  obtain ⟨⟨hwildcard, hnamed⟩, haddresses⟩ := hemits
  -- The addresses of the node are among those emitted, so the rule is not skipped.
  have hsources : (resolve policy acl.src).toSrcIps nodes ≠ [] := by
    obtain ⟨addr, haddr⟩ := List.exists_mem_of_ne_nil _ haddresses
    exact List.ne_nil_of_mem ((mem_to_src_ips hwildcard).mpr (.inr ⟨node, hnode, hnamed, haddr⟩))
  have hsource : (resolve policy acl.src).matchesNode node = true :=
    matches_node_iff.mpr (.inr (.inl hnamed))
  rw [peers_of_compile_policy hmem, mem_visible_peers]
  refine ⟨hne, .inr (reaches_of_acls.mpr ⟨acl, hacl, hsources, ⟨node, hnode, hsource, rfl⟩, ?_⟩)⟩
  exact ⟨entry, hentry, target, hparse, dst, hmem, hmatch, rfl⟩

/-! ## SSH rules -/

theorem find?_without {i : Nat} (hi : i ≠ p) :
    ((without nodes p).find? fun node => node.id == i) = nodes.find? fun node => node.id == i := by
  rw [without, List.find?_filter]
  congr 1
  funext node
  by_cases hnode : node.id = i
  · simp [hnode, hi]
  · simp [hnode]

theorem node_principals_without {ids : List Nat} (hids : p ∉ ids) :
    nodePrincipals ids (without nodes p) = nodePrincipals ids nodes := by
  unfold nodePrincipals
  refine List.foldl_ext _ _ _ fun principals i hi => ?_
  rw [find?_without (ne_of_mem_of_not_mem hi hids)]

theorem role_principals_without {rule : SshRule}
    (h : (compiledSshRule policy nodes rule).srcAll = true ∨
      ∀ node ∈ nodes, node.id = p → (resolve policy rule.src).matchesNode node = false) :
    rolePrincipals (compiledSshRule policy (without nodes p) rule) (without nodes p) =
      rolePrincipals (compiledSshRule policy nodes rule) nodes := by
  unfold rolePrincipals
  show (if (compiledSshRule policy nodes rule).srcAll then _ else _) = _
  cases h with
  | inl hall => rw [if_pos hall, if_pos hall]; rfl
  | inr hsrc =>
    -- The matched nodes are the same, and `p` is not the id of one of them.
    have hmatched : (without nodes p).filter (resolve policy rule.src).matchesNode =
        nodes.filter (resolve policy rule.src).matchesNode := by
      rw [without, List.filter_filter]
      refine List.filter_congr fun node hnode => ?_
      by_cases hp : node.id = p
      · simp [hp, hsrc node hnode hp]
      · simp [hp]
    have hsame : compiledSshRule policy (without nodes p) rule =
        compiledSshRule policy nodes rule := by
      simp only [compiledSshRule, hmatched]
    have hnot : p ∉ (compiledSshRule policy nodes rule).srcNodes.toList := by
      intro hp
      rw [Std.ExtTreeSet.mem_toList, mem_src_nodes] at hp
      obtain ⟨node, hnode, hmatch, hid⟩ := hp
      rw [hsrc node hnode hid] at hmatch
      cases hmatch
    rw [hsame, node_principals_without hnot]

theorem wire_ssh_policy_without (hid : id ≠ p) (h : NoSource policy nodes id p)
    (serverUrl : String) :
    buildWireSshPolicy (compileSshPolicy policy (without nodes p)) id serverUrl (without nodes p) =
      buildWireSshPolicy (compileSshPolicy policy nodes) id serverUrl nodes := by
  rw [build_wire_ssh_policy_eq, build_wire_ssh_policy_eq, entries_at_ssh_rules,
    entries_at_ssh_rules,
    List.map_flatMap, List.map_flatMap]
  congr 1
  refine List.flatMap_congr fun rule hrule => ?_
  rw [flatMap_without fun node _ hp => if_neg fun h => hid (h.2.symm.trans hp), List.map_flatMap,
    List.map_flatMap]
  refine List.flatMap_congr fun node hnode => ?_
  split
  case isFalse => rfl
  case isTrue hdst =>
    -- The two wire rules can only differ in their principals.
    have hprincipals := role_principals_without (h.ssh rule hrule ⟨node, hnode, hdst⟩)
    simp only [List.map_cons, List.map_nil, wireSshRule, hprincipals]
    rfl

end Without

end Crabscale.Policy
