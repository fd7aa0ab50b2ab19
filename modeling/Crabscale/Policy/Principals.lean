import Crabscale.Policy.Routes
import Crabscale.Policy.TagSearch

/-!
# The three readings of a principal

A principal is matched against a node as a source of a rule (`ResolvedTarget.matchesNode`), as a
target of node attributes (`nodeAttrTargetMatches`) and as an approver of routes
(`approverMatchesNode`). The last two read a group as its users, and node attributes know no
networks. `principal_meanings` states what is common and where they part.
-/

namespace Crabscale.Policy

open Rust

/-! ## The forms of a principal -/

/-- A login `user@host` that has no prefix of another kind of principal. -/
def IsLogin (s : String) : Prop :=
  isUserIdent s = true ∧ startsWith "autogroup:" s = false ∧ startsWith "group:" s = false ∧
    startsWith "tag:" s = false

instance (s : String) : Decidable (IsLogin s) := inferInstanceAs (Decidable (_ ∧ _ ∧ _ ∧ _))

inductive PrincipalForm (principal : String) : Prop where
  | any (h : principal = "*")
  | autogroup (name : String) (h : principal = "autogroup:" ++ name)
  | group (name : String) (h : principal = "group:" ++ name)
  | tag (name : String) (h : principal = "tag:" ++ name) (hname : name ≠ "")
  | login (h : IsLogin principal)
  | network (h : isIpOrCidrStr principal = true)

theorem principal_form {principal : String} (h : isPrincipal principal = true) :
    PrincipalForm principal := by
  unfold isPrincipal at h
  split_ifs at h with hstar
  · exact .any hstar
  split at h
  case h_1 name hauto => exact .autogroup name (strip_prefix_eq_some.mp hauto)
  case h_2 hauto =>
    split at h
    case h_1 name hgroup => exact .group name (strip_prefix_eq_some.mp hgroup)
    case h_2 hgroup =>
      split at h
      case h_1 name htag => exact .tag name (strip_prefix_eq_some.mp htag) (by simpa using h)
      case h_2 htag =>
        split at h
        case h_1 user host hsplit =>
          refine .login ⟨?_, strip_prefix_eq_none.mp hauto, strip_prefix_eq_none.mp hgroup,
            strip_prefix_eq_none.mp htag⟩
          rw [isUserIdent, hsplit]
          exact h
        case h_2 => exact .network h

variable {s : String}

theorem not_network_of_mem {c : Char} (hc : c ∈ s.toList)
    (hchar : isNetworkChar c = false) : isIpOrCidrStr s = false := by
  by_contra h
  have hparsed := is_ip_or_cidr_iff.mp (Bool.not_eq_false _ ▸ h)
  simp [parse_cidr_chars hparsed c hc] at hchar

theorem mem_of_starts_with {pat : String} {c : Char} (h : startsWith pat s = true)
    (hc : c ∈ pat.toList) : c ∈ s.toList := by
  obtain ⟨rest, rfl⟩ := starts_with_iff.mp h
  rw [String.toList_append]
  exact List.mem_append_left _ hc

theorem at_mem_of_is_user_ident (h : isUserIdent s = true) : '@' ∈ s.toList := by
  unfold isUserIdent at h
  split at h
  · cases h
  case h_2 user host hsplit =>
    rw [(split_once_eq_some.mp hsplit).1]
    simp

structure OnlyNetwork (s : String) : Prop where
  any : s ≠ "*"
  autogroup : startsWith "autogroup:" s = false
  group : startsWith "group:" s = false
  tag : startsWith "tag:" s = false
  login : isUserIdent s = false

theorem only_network (h : isIpOrCidrStr s = true) : OnlyNetwork s := by
  have hnot {c : Char} (hchar : isNetworkChar c = false) : c ∉ s.toList :=
    fun hc => by simp [not_network_of_mem hc hchar] at h
  have hprefix {pat : String} {c : Char} (hc : c ∈ pat.toList) (hchar : isNetworkChar c = false) :
      startsWith pat s = false := by
    by_contra hstarts
    exact hnot hchar (mem_of_starts_with (Bool.not_eq_false _ ▸ hstarts) hc)
  refine ⟨?_, hprefix (c := 'u') (by decide) (by decide),
    hprefix (c := 'g') (by decide) (by decide),
    hprefix (c := 't') (by decide) (by decide), ?_⟩
  · rintro rfl
    exact hnot (c := '*') (by decide) (by decide)
  · by_contra hlogin
    exact hnot (by decide) (at_mem_of_is_user_ident (Bool.not_eq_false _ ▸ hlogin))

theorem IsLogin.not_network (h : IsLogin s) : isIpOrCidrStr s = false :=
  not_network_of_mem (at_mem_of_is_user_ident h.1) (by decide)

theorem IsLogin.ne_any (h : IsLogin s) : s ≠ "*" := by
  rintro rfl
  exact absurd h.1 (by decide)

/-! ## Users of a group -/

def Acyclic (policy : Policy) : Prop := ∀ group, ¬Relation.TransGen (NestedIn policy) group group

theorem acyclic_of_flat {policy : Policy}
    (h : ∀ entry ∈ policy.groups.toList, ∀ member ∈ entry.2, stripPrefix "group:" member = none) :
    Acyclic policy := by
  intro group hcycle
  obtain ⟨inner, ⟨member, hmember, hinner⟩, -⟩ := Relation.TransGen.head'_iff.mp hcycle
  unfold groupMembers at hmember
  cases hmembers : policy.groups[group]? with
  | none => simp [hmembers] at hmember
  | some members =>
    rw [hmembers, Option.getD_some] at hmember
    have hentry := Std.ExtTreeMap.mem_toList_iff_getElem?_eq_some.mpr hmembers
    simp [h _ hentry member hmember] at hinner

def Designates (policy : Policy) (principal login : String) : Prop :=
  principal = login ∨ ∃ group, stripPrefix "group:" principal = some group ∧
    ∃ inner, Relation.ReflTransGen (NestedIn policy) group inner ∧ login ∈ groupMembers policy inner

theorem any_returns_iff {α : Type} {p : α → Option Bool} {Q : α → Prop} {xs : List α}
    {answer : Bool} (h : anyReturns p xs = some answer)
    (hp : ∀ x ∈ xs, ∀ answer, p x = some answer → (answer = true ↔ Q x)) :
    answer = true ↔ ∃ x ∈ xs, Q x := by
  induction xs with
  | nil =>
    cases h
    simp
  | cons x xs ih =>
    obtain ⟨hx, hxs⟩ := List.forall_mem_cons.mp hp
    rw [anyReturns] at h
    rw [List.exists_mem_cons_iff]
    split at h
    case h_1 => cases h
    case h_2 htrue =>
      cases h
      exact iff_of_true rfl (.inl ((hx true htrue).mp rfl))
    case h_3 hfalse =>
      have hnot : ¬Q x := fun h => Bool.false_ne_true ((hx false hfalse).mpr h)
      rw [ih h hxs, or_iff_right hnot]

variable {login : String}

theorem designates_group_iff {policy : Policy} {group : String} :
    Designates policy ("group:" ++ group) login ↔
      "group:" ++ group = login ∨
        ∃ member ∈ groupMembers policy group, Designates policy member login := by
  unfold Designates
  simp only [strip_prefix_eq_some.mpr (rfl : "group:" ++ group = "group:" ++ group),
    Option.some.injEq, exists_eq_left']
  refine or_congr_right ⟨?_, ?_⟩
  · rintro ⟨inner, hreach, hmem⟩
    rcases hreach.cases_head with rfl | ⟨nested, ⟨member, hmember, hnested⟩, hrest⟩
    · exact ⟨login, hmem, .inl rfl⟩
    · exact ⟨member, hmember, .inr ⟨nested, hnested, inner, hrest, hmem⟩⟩
  · rintro ⟨member, hmember, rfl | ⟨nested, hnested, inner, hrest, hmem⟩⟩
    · exact ⟨group, .refl, hmember⟩
    · exact ⟨inner, .head ⟨member, hmember, hnested⟩ hrest, hmem⟩

/-- When no group is nested in itself, the search skips none on its way. -/
theorem principal_matches_user_within {policy : Policy} (hacyclic : Acyclic policy) {depth : Nat}
    {principal : String} {answer : Bool}
    (h : principalMatchesUserWithin policy login depth principal = some answer) :
    answer = true ↔ Designates policy principal login := by
  induction depth generalizing principal answer with
  | zero => cases h
  | succ depth ih =>
    cases hgroup : stripPrefix "group:" principal with
    | none =>
      rw [within_plain hgroup] at h
      cases h
      simp [Designates, hgroup]
    | some group =>
      obtain rfl := strip_prefix_eq_some.mp hgroup
      rw [designates_group_iff]
      by_cases hsame : "group:" ++ group = login
      · rw [principalMatchesUserWithin, if_pos hsame] at h
        cases h
        exact iff_of_true rfl (.inl hsame)
      rw [within_group hsame] at h
      rw [or_iff_right hsame]
      refine any_returns_iff h fun member hmember answer hanswer => ?_
      split at hanswer
      case isTrue hself =>
        subst hself
        exact (hacyclic group (.single ⟨_, hmember, hgroup⟩)).elim
      case isFalse => exact ih hanswer

theorem principal_matches_user_iff {policy : Policy} (hacyclic : Acyclic policy)
    {principal : String} :
    principalMatchesUser policy principal login = true ↔ Designates policy principal login := by
  have hcircle : NoCircle policy := fun group hcircle =>
    hacyclic group (Relation.TransGen.mono (fun _ _ henters => henters.1) _ _ hcircle)
  exact principal_matches_user_within hacyclic (principal_returns hcircle principal)

/-! ## The three readings -/

section Readings

variable {policy : Policy} {node : CompileNode}

structure CompileNode.WellNamed (node : CompileNode) : Prop where
  login : ∀ login ∈ node.userLogin, IsLogin login
  tags : ∀ tag ∈ node.tags, startsWith "tag:" tag = true

theorem CompileNode.WellNamed.bears_login (hnode : node.WellNamed)
    (hlogin : IsLogin login) : node.Bears login ↔ node.userLogin = some login := by
  refine or_iff_left ?_
  intro hmem
  have htag := hnode.tags login hmem
  simp [hlogin.2.2.2] at htag

theorem CompileNode.WellNamed.bears_tag (hnode : node.WellNamed) {name : String} :
    node.Bears ("tag:" ++ name) ↔ "tag:" ++ name ∈ node.tags := by
  refine or_iff_right ?_
  intro howner
  have hlogin := hnode.login _ howner
  exact absurd (starts_with_append ..) (Bool.eq_false_iff.mp hlogin.2.2.2)

theorem readings_autogroup {name : String} :
    (nodeAttrTargetMatches policy ("autogroup:" ++ name) node =
      approverMatchesNode policy ("autogroup:" ++ name) node) ∧
    (approverMatchesNode policy ("autogroup:" ++ name) node = true ↔ AutogroupNames name node) := by
  unfold nodeAttrTargetMatches approverMatchesNode
  rw [if_neg (append_ne_star (by decide)), if_neg (append_ne_star (by decide)),
    strip_prefix_eq_some.mpr rfl]
  refine ⟨rfl, ?_⟩
  dsimp only
  unfold AutogroupNames
  split_ifs with hself hmember htagged <;> simp_all [List.isEmpty_iff]

def OwnedByMember (policy : Policy) (group : String) (node : CompileNode) : Prop :=
  ∃ member, MemberOf policy group member ∧ IsLogin member ∧ node.userLogin = some member

theorem designates_login_iff (hacyclic : Acyclic policy) (hnode : node.WellNamed) {name : String} :
    (node.userLogin.any fun login => principalMatchesUser policy ("group:" ++ name) login) = true ↔
      OwnedByMember policy name node := by
  simp only [Option.any_eq_true, principal_matches_user_iff hacyclic]
  constructor
  · rintro ⟨login, howner, hdesignated⟩
    have hlogin := hnode.login login howner
    rcases hdesignated with rfl | ⟨group, hgroup, inner, hreach, hmem⟩
    · exact absurd (starts_with_append ..) (Bool.eq_false_iff.mp hlogin.2.2.1)
    · obtain rfl : name = group := by simpa [strip_prefix_eq_some] using hgroup
      exact ⟨login, ⟨inner, hreach, hmem, strip_prefix_eq_none.mpr hlogin.2.2.1⟩, hlogin, howner⟩
  · rintro ⟨login, ⟨inner, hreach, hmem, -⟩, hlogin, howner⟩
    exact ⟨login, howner, .inr ⟨name, strip_prefix_eq_some.mpr rfl, inner, hreach, hmem⟩⟩

theorem readings_group (hacyclic : Acyclic policy) (hnode : node.WellNamed) (name : String) :
    (nodeAttrTargetMatches policy ("group:" ++ name) node =
      approverMatchesNode policy ("group:" ++ name) node) ∧
    (approverMatchesNode policy ("group:" ++ name) node = true ↔
      OwnedByMember policy name node) := by
  rw [← designates_login_iff hacyclic hnode]
  unfold nodeAttrTargetMatches approverMatchesNode
  rw [if_neg (append_ne_star (by decide)), if_neg (append_ne_star (by decide)),
    strip_prefix_eq_none.mpr group_not_autogroup, strip_prefix_eq_none.mpr group_not_tag]
  simp only [starts_with_append, if_true, and_self]

theorem readings_tag {name : String} (hname : name ≠ "") :
    (nodeAttrTargetMatches policy ("tag:" ++ name) node =
      approverMatchesNode policy ("tag:" ++ name) node) ∧
    (approverMatchesNode policy ("tag:" ++ name) node = true ↔ "tag:" ++ name ∈ node.tags) := by
  unfold nodeAttrTargetMatches approverMatchesNode
  rw [if_neg (append_ne_star (by decide)), if_neg (append_ne_star (by decide)),
    strip_prefix_eq_none.mpr tag_not_autogroup, strip_prefix_eq_some.mpr rfl]
  dsimp only
  rw [if_neg hname, tag_not_group, if_neg Bool.false_ne_true, if_pos (starts_with_append ..)]
  exact ⟨rfl, by simp⟩

theorem readings_login (h : IsLogin login) :
    (nodeAttrTargetMatches policy login node = approverMatchesNode policy login node) ∧
    (approverMatchesNode policy login node = true ↔ node.userLogin = some login) := by
  have hroute : canonicalRoute login = none := by
    have hnone : parseCidr login = none := by
      simpa [is_ip_or_cidr_iff] using Bool.eq_false_iff.mp h.not_network
    simp [canonicalRoute, hnone]
  obtain ⟨-, hauto, hgroup, htag⟩ := id h
  unfold nodeAttrTargetMatches approverMatchesNode
  rw [if_neg h.ne_any, if_neg h.ne_any, strip_prefix_eq_none.mpr hauto,
    strip_prefix_eq_none.mpr htag, hroute]
  dsimp only
  rw [hgroup, htag, if_neg Bool.false_ne_true, if_neg Bool.false_ne_true, if_neg Bool.false_ne_true]
  constructor
  · split <;> simp_all
  · simp [Option.any_eq_true]

theorem readings_network (hnode : node.WellNamed) {net : String} (h : isIpOrCidrStr net = true) :
    nodeAttrTargetMatches policy net node = false ∧
    (approverMatchesNode policy net node = true ↔ node.IsIn (normalizeCidr net)) := by
  have hform := only_network h
  have howner : (node.userLogin.any (· == net)) = false := by
    rw [Bool.eq_false_iff]
    intro hany
    simp only [Option.any_eq_true, beq_iff_eq, exists_eq_right] at hany
    simp [(hnode.login net hany).not_network] at h
  obtain ⟨⟨network, bits⟩, hparsed⟩ := Option.isSome_iff_exists.mp (is_ip_or_cidr_iff.mp h)
  obtain ⟨canonical, hroute⟩ : ∃ canonical, canonicalRoute net = some canonical := by
    simp [canonicalRoute, hparsed]
  unfold nodeAttrTargetMatches approverMatchesNode
  rw [if_neg hform.any, if_neg hform.any, strip_prefix_eq_none.mpr hform.autogroup,
    strip_prefix_eq_none.mpr hform.tag, hroute]
  dsimp only
  rw [hform.group, hform.tag, howner, if_neg Bool.false_ne_true, if_neg Bool.false_ne_true,
    if_neg Bool.false_ne_true, if_neg Bool.false_ne_true]
  refine ⟨rfl, ?_⟩
  simp only [List.any_eq_true, addr_in_cidr_iff, CompileNode.IsIn, lies_in_canonical hroute,
    lies_in_normalize]

/-- A group matches as a source when its owner is one of its users, or when another member stands
for the node. -/
theorem member_names_cases (hnode : node.WellNamed) {group : String} :
    MemberNames policy group node ↔
      OwnedByMember policy group node ∨
        ∃ member, MemberOf policy group member ∧ startsWith "autogroup:" member = false ∧
          ¬IsLogin member ∧ PlainNames policy member node := by
  have hlogin {member : String} (h : IsLogin member) :
      PlainNames policy member node ↔ node.userLogin = some member := by
    rw [PlainNames, if_neg h.ne_any, if_pos (by simp [h.1]), hnode.bears_login h]
  constructor
  · rintro ⟨member, hmember, hauto, hnames⟩
    by_cases h : IsLogin member
    · exact .inl ⟨member, hmember, h, (hlogin h).mp hnames⟩
    · exact .inr ⟨member, hmember, hauto, h, hnames⟩
  · rintro (⟨member, hmember, h, howner⟩ | ⟨member, hmember, hauto, -, hnames⟩)
    · exact ⟨member, hmember, h.2.1, (hlogin h).mpr howner⟩
    · exact ⟨member, hmember, hauto, hnames⟩

def serversPolicy : Policy := { groups := {("servers", ["tag:web", "alice@example.com"])} }

theorem acyclic_servers_policy : Acyclic serversPolicy :=
  acyclic_of_flat (by decide +kernel)

def laptop : CompileNode :=
  { id := 1, userLogin := some "alice@example.com", addresses := ["100.64.0.1"] }

def webServer : CompileNode := { id := 2, addresses := ["100.64.0.2"], tags := ["tag:web"] }

theorem well_named_laptop : laptop.WellNamed :=
  ⟨by simp only [laptop, Option.mem_def, Option.some.injEq]; rintro _ rfl; decide, by decide⟩

end Readings

end Crabscale.Policy
