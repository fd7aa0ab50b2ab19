import Crabscale.Graph.Reach
import Crabscale.Policy.Exact

/-!
# Groups and their members

A group stands for the principals that its members and nested groups name. Resolution closes the
groups of the current path, so it finds every member even in circles. It loses the autogroup markers
of members; `group_matches_iff` says exactly when a group matches a node its members match.
-/

namespace Crabscale.Policy

open Rust Graph

def groupMembers (policy : Policy) (group : String) : List String := (policy.groups[group]?).getD []

theorem group_of_member {policy : Policy} {group member : String}
    (h : member ∈ groupMembers policy group) : group ∈ policy.groups := by
  rw [Std.ExtTreeMap.mem_iff_isSome_getElem?]
  cases hmembers : policy.groups[group]? with
  | none => simp [groupMembers, hmembers] at h
  | some members => rfl

/-- The group `inner` is a member of the group `outer`. -/
def NestedIn (policy : Policy) (outer inner : String) : Prop :=
  ∃ member ∈ groupMembers policy outer, stripPrefix "group:" member = some inner

def MemberOf (policy : Policy) (group principal : String) : Prop :=
  ∃ inner, Relation.ReflTransGen (NestedIn policy) group inner ∧
    principal ∈ groupMembers policy inner ∧ stripPrefix "group:" principal = none

/-! ## What principals stand for -/

def CompileNode.Bears (node : CompileNode) (identity : String) : Prop :=
  node.userLogin = some identity ∨ identity ∈ node.tags

def CompileNode.IsIn (node : CompileNode) (net : String) : Prop :=
  ∃ addr ∈ node.addresses, LiesIn addr net

def AutogroupNames (name : String) (node : CompileNode) : Prop :=
  name = "self" ∨ (name = "member" ∧ node.tags = []) ∨ (name = "tagged" ∧ node.tags ≠ [])

/-- The nodes a principal that is neither a group nor an autogroup stands for: `*` for every node,
a tag or a login for the nodes that bear it, a network or an alias of one for the nodes in it. -/
def PlainNames (policy : Policy) (principal : String) (node : CompileNode) : Prop :=
  if principal = "*" then True
  else if startsWith "tag:" principal || isUserIdent principal then node.Bears principal
  else if isIpOrCidrStr principal then node.IsIn (normalizeCidr principal)
  else
    ∃ value, policy.hosts[principal]? = some value ∧ isIpOrCidrStr value = true ∧
      node.IsIn (normalizeCidr value)

def MemberNames (policy : Policy) (group : String) (node : CompileNode) : Prop :=
  ∃ principal, MemberOf policy group principal ∧ startsWith "autogroup:" principal = false ∧
    PlainNames policy principal node

/-! ## What merging keeps -/

section Merge

variable {node : CompileNode}

def ResolvedTarget.Unmarked (target : ResolvedTarget) : Prop :=
  target.selfMatch = false ∧ target.memberMatch = false ∧ target.taggedMatch = false

theorem identity_match_add_member {group member : ResolvedTarget} :
    (group.addMember member).identityMatch node = true ↔
      group.identityMatch node = true ∨ member.identityMatch node = true := by
  simp only [ResolvedTarget.identityMatch, ResolvedTarget.addMember, Bool.or_eq_true,
    Option.any_eq_true, List.any_eq_true, Std.ExtTreeSet.contains_iff_mem,
    Std.ExtTreeSet.mem_union_iff]
  grind

theorem matches_add_member {group member : ResolvedTarget} :
    (group.addMember member).matchesNode node = true ↔
      group.matchesNode node = true ∨
        (({} : ResolvedTarget).addMember member).matchesNode node = true := by
  simp only [matches_node_iff, identity_match_add_member]
  simp only [ResolvedTarget.addMember, ResolvedTarget.autogroupMatch, Bool.or_eq_true,
    List.mem_append]
  simp [ResolvedTarget.identityMatch]
  grind

theorem not_matches_empty : ({} : ResolvedTarget).matchesNode node = false := by
  simp [ResolvedTarget.matchesNode, ResolvedTarget.identityMatch]

theorem matches_foldl_add_member {members : List String} {resolved : String → ResolvedTarget} :
    (members.foldl (fun (group : ResolvedTarget) member => group.addMember (resolved member))
        {}).matchesNode node = true ↔
      ∃ member ∈ members, (({} : ResolvedTarget).addMember (resolved member)).matchesNode node =
        true := by
  rw [foldl_iff_exists (P := fun group : ResolvedTarget => group.matchesNode node = true)
    (Q := fun member => (({} : ResolvedTarget).addMember (resolved member)).matchesNode node = true)
    (fun _ _ => matches_add_member)]
  simp [not_matches_empty]

theorem unmarked_foldl_add_member {members : List String} {resolved : String → ResolvedTarget} :
    (members.foldl (fun (group : ResolvedTarget) member => group.addMember (resolved member))
      {}).Unmarked :=
  List.foldlRecOn _ _ ⟨rfl, rfl, rfl⟩ fun _ h _ _ => h

theorem ResolvedTarget.Unmarked.add_member {member : ResolvedTarget} (h : member.Unmarked) :
    (({} : ResolvedTarget).addMember member).matchesNode node = member.matchesNode node := by
  rw [Bool.eq_iff_iff]
  simp only [matches_node_iff, identity_match_add_member]
  simp only [ResolvedTarget.addMember, ResolvedTarget.autogroupMatch, h.1, h.2.1, h.2.2]
  simp [ResolvedTarget.identityMatch]

end Merge

/-! ## What resolution finds -/

section Resolution

variable {policy : Policy} {node : CompileNode}

def Names (policy : Policy) (principal : String) (node : CompileNode) : Prop :=
  stripPrefix "group:" principal = none ∧ startsWith "autogroup:" principal = false ∧
    PlainNames policy principal node

variable {principal : String}

theorem resolve_single_within_plain {depth : Nat} {resolving : BTreeSet String}
    (hplain : stripPrefix "group:" principal = none) :
    resolveSingleWithin policy (depth + 1) resolving principal =
      resolveSingle policy principal := by
  simp only [resolveSingle, resolveSingleWithin, hplain]

theorem unmarked_resolve_single (hmarker : startsWith "autogroup:" principal = false) (depth : Nat)
    (resolving : BTreeSet String) :
    (resolveSingleWithin policy depth resolving principal).Unmarked := by
  cases depth with
  | zero => exact ⟨rfl, rfl, rfl⟩
  | succ depth =>
    unfold resolveSingleWithin
    rw [strip_prefix_eq_none.mpr hmarker]
    dsimp only
    split
    · exact ⟨rfl, rfl, rfl⟩
    split
    · split
      · exact ⟨rfl, rfl, rfl⟩
      · exact unmarked_foldl_add_member
    · split_ifs
      · exact ⟨rfl, rfl, rfl⟩
      · exact ⟨rfl, rfl, rfl⟩
      · exact ⟨rfl, rfl, rfl⟩
      · unfold resolveHost
        split
        · split <;> exact ⟨rfl, rfl, rfl⟩
        · exact ⟨rfl, rfl, rfl⟩

theorem append_ne_star {pat rest : String} (hpat : startsWith pat "*" = false) :
    pat ++ rest ≠ "*" := by
  intro h
  simp [← h] at hpat

theorem resolve_single_autogroup {rest : String} :
    resolveSingle policy ("autogroup:" ++ rest) = resolveAutogroup rest := by
  rw [resolveSingle, resolveSingleWithin, if_neg (append_ne_star (by decide)),
    strip_prefix_eq_some.mpr rfl]

theorem matches_autogroup_iff {name : String} :
    (resolveAutogroup name).matchesNode node = true ↔ AutogroupNames name node := by
  unfold resolveAutogroup AutogroupNames ResolvedTarget.matchesNode
  split_ifs with hself hmember htagged <;>
    simp_all [ResolvedTarget.identityMatch, List.isEmpty_iff]

theorem matches_identity_iff {identity : String} :
    ({ identities := {identity} } : ResolvedTarget).matchesNode node = true ↔
      node.Bears identity := by
  simp [matches_node_iff, ResolvedTarget.autogroupMatch, ResolvedTarget.identityMatch,
    CompileNode.Bears, Option.any_eq_true, eq_comm (a := identity)]

theorem matches_net_iff {net : String} :
    ({ nets := [net] } : ResolvedTarget).matchesNode node = true ↔ node.IsIn net := by
  simp [matches_node_iff, ResolvedTarget.autogroupMatch, ResolvedTarget.identityMatch,
    CompileNode.IsIn]

theorem matches_plain_iff (hgroup : stripPrefix "group:" principal = none)
    (hauto : startsWith "autogroup:" principal = false) :
    (resolveSingle policy principal).matchesNode node = true ↔
      PlainNames policy principal node := by
  rw [resolveSingle, resolveSingleWithin, hgroup, strip_prefix_eq_none.mpr hauto, PlainNames]
  dsimp only
  by_cases hstar : principal = "*"
  · rw [if_pos hstar, if_pos hstar]
    simp [matches_node_iff]
  rw [if_neg hstar, if_neg hstar]
  by_cases hbears : startsWith "tag:" principal || isUserIdent principal
  · rw [if_pos hbears]
    rcases Bool.or_eq_true_iff.mp hbears with htag | huser
    · rw [if_pos htag, matches_identity_iff]
    · rw [if_pos huser, ite_self, matches_identity_iff]
  have hnot := Bool.or_eq_false_iff.mp (Bool.not_eq_true _ ▸ hbears)
  rw [if_neg hbears, hnot.1, hnot.2, if_neg Bool.false_ne_true, if_neg Bool.false_ne_true]
  by_cases hnet : isIpOrCidrStr principal
  · rw [if_pos hnet, if_pos hnet, matches_net_iff]
  rw [if_neg hnet, if_neg hnet, resolveHost]
  cases hvalue : policy.hosts[principal]? with
  | none => simp [not_matches_empty]
  | some value =>
    by_cases hvalid : isIpOrCidrStr value
    · simp [hvalid, matches_net_iff]
    · simp [hvalid, not_matches_empty]

theorem matches_add_plain (hplain : stripPrefix "group:" principal = none) :
    (({} : ResolvedTarget).addMember (resolveSingle policy principal)).matchesNode node = true ↔
      Names policy principal node := by
  cases hmarker : startsWith "autogroup:" principal with
  | false =>
    have hunmarked : (resolveSingle policy principal).Unmarked :=
      unmarked_resolve_single hmarker _ _
    rw [hunmarked.add_member, matches_plain_iff hplain hmarker]
    simp only [Names, hplain, hmarker, true_and]
  | true =>
    obtain ⟨rest, rfl⟩ := starts_with_iff.mp hmarker
    have hnothing : ({} : ResolvedTarget).addMember (resolveAutogroup rest) = {} := by
      unfold resolveAutogroup
      split_ifs <;> rfl
    rw [resolve_single_autogroup, hnothing, not_matches_empty]
    simp [Names, hmarker]

variable {group : String}

theorem group_not_autogroup : startsWith "autogroup:" ("group:" ++ group) = false := by
  simp [startsWith, List.isPrefixOf]

theorem group_not_tag : startsWith "tag:" ("group:" ++ group) = false := by
  simp [startsWith, List.isPrefixOf]

theorem tag_not_autogroup {name : String} : startsWith "autogroup:" ("tag:" ++ name) = false := by
  simp [startsWith, List.isPrefixOf]

theorem tag_not_group {name : String} : startsWith "group:" ("tag:" ++ name) = false := by
  simp [startsWith, List.isPrefixOf]

theorem resolve_single_within_group {depth : Nat} {resolving : BTreeSet String} :
    resolveSingleWithin policy (depth + 1) resolving ("group:" ++ group) =
      if resolving.contains group then {}
      else (groupMembers policy group).foldl
        (fun (resolved : ResolvedTarget) member => resolved.addMember
          (resolveSingleWithin policy depth (resolving.insert group) member)) {} := by
  rw [resolveSingleWithin, if_neg (append_ne_star (by decide)),
    strip_prefix_eq_none.mpr group_not_autogroup]
  simp only [strip_prefix_eq_some.mpr rfl]
  rfl

theorem member_names_iff :
    MemberNames policy group node ↔
      ∃ inner, Relation.ReflTransGen (NestedIn policy) group inner ∧
        ∃ principal ∈ groupMembers policy inner, Names policy principal node := by
  constructor
  · rintro ⟨principal, ⟨inner, hreach, hmem, hplain⟩, hmarker, hnames⟩
    exact ⟨inner, hreach, principal, hmem, hplain, hmarker, hnames⟩
  · rintro ⟨inner, hreach, principal, hmem, hplain, hmarker, hnames⟩
    exact ⟨principal, ⟨inner, hreach, hmem, hplain⟩, hmarker, hnames⟩

theorem matches_group_within {depth : Nat} {resolving : BTreeSet String}
    (hdepth : openable policy resolving < depth) :
    (resolveSingleWithin policy depth resolving ("group:" ++ group)).matchesNode node = true ↔
      ∃ inner, ReachesAvoiding (NestedIn policy) (fun g => g ∈ resolving) group inner ∧
        ∃ principal ∈ groupMembers policy inner, Names policy principal node := by
  -- The induction is on the depth; each step opens one more of the policy's groups.
  induction depth generalizing resolving group with
  | zero => omega
  | succ depth ih =>
    rw [resolve_single_within_group]
    split
    case isTrue hopen =>
      rw [not_matches_empty]
      simp only [Bool.false_eq_true, false_iff]
      rintro ⟨inner, hreach, -⟩
      exact hreach.1 (Std.ExtTreeSet.contains_iff_mem.mp hopen)
    case isFalse hopen =>
      have hmember : ∀ member ∈ groupMembers policy group,
          ((({} : ResolvedTarget).addMember
            (resolveSingleWithin policy depth (resolving.insert group) member)).matchesNode node =
              true ↔
            Names policy member node ∨
              ∃ nested, stripPrefix "group:" member = some nested ∧
                ∃ inner, ReachesAvoiding (NestedIn policy) (fun g => g ∈ resolving ∨ g = group)
                    nested inner ∧
                  ∃ principal ∈ groupMembers policy inner, Names policy principal node) := by
        intro member hmem
        have hlt := openable_insert_lt (group_of_member hmem) (Bool.not_eq_true _ ▸ hopen)
        cases hnested : stripPrefix "group:" member with
        | none =>
          obtain ⟨rest, rfl⟩ : ∃ rest, depth = rest + 1 := ⟨depth - 1, by omega⟩
          rw [resolve_single_within_plain hnested, matches_add_plain hnested]
          simp
        | some nested =>
          have hclosed : (fun g => g ∈ resolving.insert group) =
              fun g => g ∈ resolving ∨ g = group := by
            funext g
            rw [Std.ExtTreeSet.mem_insert, Std.LawfulEqOrd.compare_eq_iff_eq, or_comm,
              eq_comm (a := g)]
          obtain rfl := strip_prefix_eq_some.mp hnested
          rw [(unmarked_resolve_single group_not_autogroup _ _).add_member,
            ih (by omega), hclosed]
          simp [Names, hnested]
      rw [matches_foldl_add_member]
      constructor
      · rintro ⟨member, hmem, hmatch⟩
        rcases (hmember member hmem).mp hmatch with hnames
          | ⟨nested, hnested, inner, hreach, hinner⟩
        · exact ⟨group, reaches_avoiding_iff.mpr ⟨by simpa using hopen, .inl rfl⟩,
            member, hmem, hnames⟩
        · exact ⟨inner, reaches_avoiding_iff.mpr
            ⟨by simpa using hopen, .inr ⟨nested, ⟨member, hmem, hnested⟩, hreach⟩⟩, hinner⟩
      · rintro ⟨inner, hreach, principal, hprincipal, hnames⟩
        rcases (reaches_avoiding_iff.mp hreach).2 with rfl
          | ⟨nested, ⟨member, hmem, hnested⟩, hrest⟩
        · exact ⟨principal, hprincipal, (hmember principal hprincipal).mpr (.inl hnames)⟩
        · exact ⟨member, hmem, (hmember member hmem).mpr
            (.inr ⟨nested, hnested, inner, hrest, principal, hprincipal, hnames⟩)⟩

theorem matches_group_iff :
    (resolveSingle policy ("group:" ++ group)).matchesNode node = true ↔
      MemberNames policy group node := by
  have hopenable : openable policy ∅ < policy.groups.size + 1 :=
    Nat.lt_succ_of_le openable_empty_le
  rw [resolveSingle, matches_group_within hopenable, member_names_iff]
  have hclosed (g : String) : ¬g ∈ (∅ : BTreeSet String) := Std.ExtTreeSet.not_mem_empty
  simp only [reaches_avoiding_nothing hclosed]

theorem member_names_step :
    MemberNames policy group node ↔
      ∃ member ∈ groupMembers policy group, Names policy member node ∨
        ∃ nested, stripPrefix "group:" member = some nested ∧ MemberNames policy nested node := by
  constructor
  · rw [member_names_iff]
    rintro ⟨inner, hreach, principal, hprincipal, hnames⟩
    rcases hreach.cases_head with rfl | ⟨nested, ⟨member, hmem, hnested⟩, hrest⟩
    · exact ⟨principal, hprincipal, .inl hnames⟩
    · exact ⟨member, hmem, .inr ⟨nested, hnested,
        member_names_iff.mpr ⟨inner, hrest, principal, hprincipal, hnames⟩⟩⟩
  · rintro ⟨member, hmem, hnames | ⟨nested, hnested, hrest⟩⟩
    · exact member_names_iff.mpr ⟨group, .refl, member, hmem, hnames⟩
    · obtain ⟨inner, hreach, hinner⟩ := member_names_iff.mp hrest
      exact member_names_iff.mpr ⟨inner, .head ⟨member, hmem, hnested⟩ hreach, hinner⟩

/-- So does a group used as a destination, under the name without any `group:` before it. -/
theorem matches_bare_group_iff :
    (resolveBare policy ("group:" ++ group)).matchesNode node = true ↔
      MemberNames policy (trimStartMatches "group:" group) node := by
  rw [resolveBare, if_neg (append_ne_star (by decide)), strip_prefix_eq_none.mpr group_not_autogroup]
  simp only [group_not_tag, starts_with_append, Bool.false_eq_true, if_false, if_true]
  rw [matches_foldl_add_member, trim_start_matches_append (by decide), member_names_step]
  refine exists_congr fun member => and_congr_right fun _ => ?_
  cases hnested : stripPrefix "group:" member with
  | none => simp [matches_add_plain hnested]
  | some nested =>
    obtain rfl := strip_prefix_eq_some.mp hnested
    have hunmarked : (resolveSingle policy ("group:" ++ nested)).Unmarked :=
      unmarked_resolve_single group_not_autogroup _ _
    rw [hunmarked.add_member, matches_group_iff]
    simp [Names, hnested]

def MemberMatches (policy : Policy) (group : String) (node : CompileNode) : Prop :=
  ∃ principal, MemberOf policy group principal ∧
    (resolveSingle policy principal).matchesNode node = true

theorem member_matches_iff :
    MemberMatches policy group node ↔
      MemberNames policy group node ∨
        ∃ name, MemberOf policy group ("autogroup:" ++ name) ∧ AutogroupNames name node := by
  constructor
  · rintro ⟨principal, hmember, hmatch⟩
    cases hmarker : startsWith "autogroup:" principal with
    | false =>
      have hplain := hmember.choose_spec.2.2
      exact .inl ⟨principal, hmember, hmarker, (matches_plain_iff hplain hmarker).mp hmatch⟩
    | true =>
      obtain ⟨name, rfl⟩ := starts_with_iff.mp hmarker
      rw [resolve_single_autogroup, matches_autogroup_iff] at hmatch
      exact .inr ⟨name, hmember, hmatch⟩
  · rintro (⟨principal, hmember, hmarker, hnames⟩ | ⟨name, hmember, hnames⟩)
    · have hplain := hmember.choose_spec.2.2
      exact ⟨principal, hmember, (matches_plain_iff hplain hmarker).mpr hnames⟩
    · refine ⟨_, hmember, ?_⟩
      rw [resolve_single_autogroup, matches_autogroup_iff]
      exact hnames

/-- A group matches the nodes its members match, as a source and as a destination, exactly when no
autogroup among the members covers a node that no other member stands for, and the name without any
leading `group:` stands for the same nodes. -/
theorem group_matches_iff (policy : Policy) (group : String) (node : CompileNode) :
    (((resolveSingle policy ("group:" ++ group)).matchesNode node = true ↔
        MemberMatches policy group node) ∧
      ((resolveBare policy ("group:" ++ group)).matchesNode node = true ↔
        MemberMatches policy group node)) ↔
      (∀ name, MemberOf policy group ("autogroup:" ++ name) → AutogroupNames name node →
          MemberNames policy group node) ∧
        (MemberNames policy (trimStartMatches "group:" group) node ↔
          MemberNames policy group node) := by
  rw [matches_group_iff, matches_bare_group_iff, member_matches_iff]
  constructor
  · rintro ⟨hsource, hbare⟩
    have hcovered : ∀ name, MemberOf policy group ("autogroup:" ++ name) →
        AutogroupNames name node → MemberNames policy group node :=
      fun name hmember hnames => hsource.mpr (.inr ⟨name, hmember, hnames⟩)
    exact ⟨hcovered, hbare.trans hsource.symm⟩
  · rintro ⟨hcovered, hname⟩
    have hsource : MemberNames policy group node ↔
        MemberNames policy group node ∨
          ∃ name, MemberOf policy group ("autogroup:" ++ name) ∧ AutogroupNames name node :=
      ⟨.inl, fun h => h.elim id fun ⟨name, hmember, hnames⟩ => hcovered name hmember hnames⟩
    exact ⟨hsource, hname.trans hsource⟩

def devicesPolicy : Policy := { groups := {("devices", ["autogroup:member"])} }

/-- It matches no device. -/
theorem group_loses_autogroup :
    let laptop : CompileNode := { id := 1, userLogin := some "alice@example.com" }
    MemberMatches devicesPolicy "devices" laptop ∧
      (resolveSingle devicesPolicy "group:devices").matchesNode laptop = false ∧
      (resolveBare devicesPolicy "group:devices").matchesNode laptop = false := by
  refine ⟨⟨"autogroup:member", ⟨"devices", .refl, ?_, ?_⟩, ?_⟩, ?_, ?_⟩ <;> decide +kernel

end Resolution

end Crabscale.Policy
