import Crabscale.Policy.DestinationText

/-!
# Destinations as written and as compiled

`destination_agrees_iff` says for which texts the compiled destination means what is written, in
every accepted policy. For each other kind of text a policy with one rule tells the two apart.
-/

namespace Crabscale.Policy

open Rust Proto

/-! ## Policies that tell two principals apart -/

def destinations (policy : Policy) : List String :=
  policy.acls.flatMap Acl.dst ++ policy.grants.flatMap Grant.dst

def ruleFor (dst : String) (hosts : BTreeMap String String)
    (groups : BTreeMap String (List String)) :
    Policy where
  acls := [{ action := "accept", src := ["*"], dst := [dst] }]
  hosts := hosts
  groups := groups

variable {dst : String}

theorem accepted_rule_for (hdst : isDst dst = true)
    (hosts : BTreeMap String String) (groups : BTreeMap String (List String))
    (hhosts : ∀ name value, hosts[name]? = some value → trim name ≠ "" ∧ isIpOrCidrStr value = true)
    (hgroups : ∀ name members, groups[name]? = some members →
      trim name ≠ "" ∧ ∀ member ∈ members, isPrincipal member = true) :
    Accepted (ruleFor dst hosts groups) ∧ dst ∈ destinations (ruleFor dst hosts groups) := by
  have hempty {α : Type} {P : String × α → Prop} :
      ∀ entry ∈ (∅ : BTreeMap String α).toList, P entry := by
    intro entry hentry
    have hnone := Std.ExtTreeMap.mem_toList_iff_getElem?_eq_some.mp hentry
    simp at hnone
  refine ⟨accepted_iff.mpr ?_, by simp [destinations, ruleFor]⟩
  constructor
  case groups =>
    intro entry hentry
    exact hgroups _ _ (Std.ExtTreeMap.mem_toList_iff_getElem?_eq_some.mp hentry)
  case hosts =>
    intro entry hentry
    exact hhosts _ _ (Std.ExtTreeMap.mem_toList_iff_getElem?_eq_some.mp hentry)
  case acls =>
    intro rule hrule
    obtain rfl := List.mem_singleton.mp hrule
    refine ⟨rfl, by simp, by simp, ?_, by simpa using hdst⟩
    intro target htarget
    obtain rfl := List.mem_singleton.mp htarget
    decide
  case tagOwners => exact hempty
  case approvers =>
    intro table htable
    have hnone : table = ∅ := by simpa [ruleFor] using htable
    rw [hnone]
    exact hempty
  all_goals
    intro rule hrule
    cases hrule

theorem getElem?_singleton {α : Type} {key name : String} {value found : α}
    (h : ((∅ : BTreeMap String α).insert key value)[name]? = some found) :
    key = name ∧ value = found := by
  simpa [Std.ExtTreeMap.getElem?_insert, Option.ite_none_right_eq_some] using h

theorem accepted_plain_rule (hdst : isDst dst = true) :
    Accepted (ruleFor dst ∅ ∅) ∧ dst ∈ destinations (ruleFor dst ∅ ∅) :=
  accepted_rule_for hdst ∅ ∅ (by simp) (by simp)

theorem not_matches_unknown {policy : Policy} {node : CompileNode} {principal : String}
    (hgroups : policy.groups = ∅) (hhosts : policy.hosts[principal]? = none)
    (hlogin : node.userLogin ≠ some principal) (htags : node.tags = [])
    (hany : principal ≠ "*") (hnet : isIpOrCidrStr principal = false)
    (hauto : ∀ name ∈ ["self", "member", "tagged"], principal ≠ "autogroup:" ++ name) :
    ¬(resolveSingle policy principal).matchesNode node = true := by
  intro hmatch
  cases hgroup : stripPrefix "group:" principal with
  | some group =>
    obtain rfl := strip_prefix_eq_some.mp hgroup
    obtain ⟨member, ⟨inner, -, hmem, -⟩, -⟩ := matches_group_iff.mp hmatch
    simp [groupMembers, hgroups] at hmem
  | none =>
    cases hmarker : startsWith "autogroup:" principal with
    | true =>
      obtain ⟨name, rfl⟩ := starts_with_iff.mp hmarker
      rw [resolve_single_autogroup, matches_autogroup_iff] at hmatch
      rcases hmatch with rfl | ⟨rfl, -⟩ | ⟨rfl, -⟩
      · exact hauto "self" (by simp) rfl
      · exact hauto "member" (by simp) rfl
      · exact hauto "tagged" (by simp) rfl
    | false =>
      rw [matches_plain_iff hgroup hmarker, PlainNames, if_neg hany] at hmatch
      split_ifs at hmatch with hbears
      · rcases hmatch with howner | htag
        · exact hlogin howner
        · simp [htags] at htag
      · simp [hnet] at *
      · simp [hhosts] at hmatch

theorem group_group_of_group {s : String} (h : startsWith "group:" s = false) :
    startsWith "group:group:" s = false := by
  by_contra hnot
  obtain ⟨rest, rfl⟩ := starts_with_iff.mp (Bool.not_eq_false _ ▸ hnot)
  exact absurd (starts_with_iff.mpr ⟨"group:" ++ rest, by rw [← String.append_assoc]; rfl⟩)
    (Bool.eq_false_iff.mp h)

/-- A text that is no network and no named principal matches some node in some policy, and another
text that is not there does not. -/
theorem exists_separating {text principal : String} (hdst : isDst dst = true)
    (htext : text ≠ "*") (htextNet : isIpOrCidrStr text = false)
    (htextNamed : ∀ pre ∈ namedPrefixes, startsWith pre text = false) (hblank : trim text ≠ "")
    (hne : text ≠ principal) (hany : principal ≠ "*") (hnet : isIpOrCidrStr principal = false)
    (hauto : ∀ name ∈ ["self", "member", "tagged"], principal ≠ "autogroup:" ++ name) :
    ∃ policy, Accepted policy ∧ dst ∈ destinations policy ∧
      ∃ node, (resolveBare policy text).matchesNode node = true ∧
        ¬(resolveSingle policy principal).matchesNode node = true := by
  have hgroup : startsWith "group:" text = false := htextNamed "group:" (by decide)
  have hmarker : startsWith "autogroup:" text = false := htextNamed "autogroup:" (by decide)
  have htag : startsWith "tag:" text = false := htextNamed "tag:" (by decide)
  have hbare {policy : Policy} {node : CompileNode} :
      (resolveBare policy text).matchesNode node = true ↔ PlainNames policy text node := by
    rw [matches_bare_iff (group_group_of_group hgroup),
      matches_plain_iff (strip_prefix_eq_none.mpr hgroup) hmarker]
  cases hident : isUserIdent text with
  | true =>
    -- A login: its owner's node.
    obtain ⟨haccepted, hmem⟩ := accepted_plain_rule hdst
    refine ⟨_, haccepted, hmem, { id := 1, userLogin := some text }, ?_, ?_⟩
    · rw [hbare, PlainNames, if_neg htext, if_pos (by simp [hident])]
      exact .inl rfl
    · refine not_matches_unknown rfl (by simp [ruleFor]) ?_ rfl hany hnet hauto
      simpa using hne
  | false =>
    -- A host alias: a node with the address it stands for.
    have hhost (name value : String)
        (h : ((∅ : BTreeMap String String).insert text "100.64.0.1")[name]? = some value) :
        trim name ≠ "" ∧ isIpOrCidrStr value = true := by
      obtain ⟨rfl, rfl⟩ := getElem?_singleton h
      exact ⟨hblank, by decide +kernel⟩
    obtain ⟨haccepted, hmem⟩ := accepted_rule_for hdst _ ∅ hhost (by simp)
    refine ⟨_, haccepted, hmem, { id := 1, addresses := ["100.64.0.1"] }, ?_, ?_⟩
    · rw [hbare, PlainNames, if_neg htext, if_neg (by simp [hident, htag]),
        if_neg (by simp [htextNet])]
      refine ⟨"100.64.0.1", Std.ExtTreeMap.getElem?_insert_self, by decide +kernel, "100.64.0.1",
        by simp, addr_in_cidr_iff.mp (by decide +kernel)⟩
    · refine not_matches_unknown rfl ?_ (by simp) rfl hany hnet hauto
      have hother : compare text principal ≠ .eq :=
        fun h => hne (Std.LawfulEqOrd.compare_eq_iff_eq.mp h)
      simp only [ruleFor, Std.ExtTreeMap.getElem?_insert, if_neg hother]
      simp

/-- Some accepted policy holds the destination and compiles it to something else. -/
def Differs (dst : String) : Prop :=
  ∃ policy, Accepted policy ∧ dst ∈ destinations policy ∧ ¬DstAgrees policy dst

theorem differs_of_node (h : ∃ policy, Accepted policy ∧ dst ∈ destinations policy ∧
      ∃ node, (resolveBare policy (compiled dst).principal).matchesNode node = true ∧
        ¬(resolveSingle policy (written dst).principal).matchesNode node = true) : Differs dst := by
  obtain ⟨policy, haccepted, hmem, node, hcompiled, hwritten⟩ := h
  refine ⟨policy, haccepted, hmem, fun hagrees => ?_⟩
  exact hwritten ((dst_agrees_iff.mp hagrees).1 node |>.mp hcompiled)

theorem not_network_named {pre rest : String} (hpre : pre ∈ namedPrefixes) :
    isIpOrCidrStr (pre ++ rest) = false := by
  obtain ⟨host, hhost⟩ := named_prefix hpre
  obtain ⟨c, hc, hchar⟩ := hhost.char
  exact not_network_of_mem (by simp [hhost.text, hc]) hchar

theorem differs_named {pre rest : String} (hdst : isDst (pre ++ rest) = true)
    (hpre : pre ∈ namedPrefixes) (hcolon : ':' ∉ rest.toList) : Differs (pre ++ rest) := by
  obtain ⟨hwritten, host, hhost, hcompiled⟩ :=
    compiled_named_bare hpre (is_dst_named hpre hdst) hcolon
  by_cases hauto : ∀ name ∈ ["self", "member", "tagged"], pre ++ rest ≠ "autogroup:" ++ name
  · apply differs_of_node
    rw [hcompiled, hwritten]
    have hne : host ≠ pre ++ rest := by
      intro h
      have hstarts := hhost.named pre hpre
      simp [h] at hstarts
    obtain ⟨c, hc, hchar⟩ := hhost.char
    exact exists_separating hdst hhost.any (not_network_of_mem hc hchar) hhost.named hhost.trim hne
      (named_ne_any hpre) (not_network_named hpre) hauto
  · -- The name of a supported autogroup is compiled to an empty port list.
    simp only [not_forall, not_not] at hauto
    obtain ⟨name, hname, heq⟩ := hauto
    obtain ⟨rfl, rfl⟩ : pre = "autogroup:" ∧ rest = name := by
      have hform : namedForm (pre ++ rest) = some (pre, rest) := named_form_append hpre
      rw [heq, named_form_append (by decide)] at hform
      simpa [eq_comm] using hform
    have hparse : ∀ name ∈ ["self", "member", "tagged"], parsePorts name = [] := by decide
    obtain ⟨haccepted, hmem⟩ := accepted_plain_rule hdst
    refine ⟨_, haccepted, hmem, fun hagrees => ?_⟩
    have hports := (dst_agrees_iff.mp hagrees).2
    rw [hcompiled, hwritten] at hports
    have hzero := (hports 0).mpr (by omega)
    simp [hparse _ hname, PortIn] at hzero

theorem at_text {s : String} (hat : '@' ∈ s.toList) :
    s ≠ "*" ∧ isIpOrCidrStr s = false ∧ trim s ≠ "" ∧
      ∀ name ∈ ["self", "member", "tagged"], s ≠ "autogroup:" ++ name := by
  refine ⟨?_, not_network_of_mem hat (by decide), trim_ne_empty hat (by decide), ?_⟩
  · rintro rfl
    exact absurd hat (by decide)
  · rintro name hname rfl
    have hnone : ∀ name ∈ ["self", "member", "tagged"], '@' ∉ ("autogroup:" ++ name).toList := by
      decide
    exact hnone name hname hat

theorem differs_login_ports {user host : String} (hdst : isDst dst = true) (hplain : PlainDst dst)
    (hlogin : splitOnce '@' dst = some (user, host)) (huser : user ≠ "")
    (hports : (written dst).ports ≠ none) {c : Char} (hc : c ∈ user.toList)
    (hblank : isWhitespace c = true) : Differs dst := by
  obtain ⟨hdstText, -⟩ := split_once_eq_some.mp hlogin
  have hwritten := written_login hplain hlogin
  cases hsplit : rsplitOnce ':' host with
  | none =>
    rw [hsplit] at hwritten
    simp [hwritten] at hports
  | some parts =>
    obtain ⟨name, ports⟩ := parts
    have hhost := (rsplit_once_eq_some.mp hsplit).1
    rw [hsplit] at hwritten
    dsimp only at hwritten
    split_ifs at hwritten with hempty
    · simp [hwritten] at hports
    have hcompiled : compiled dst = ⟨dst, none⟩ := by
      rw [compiled_login_host hplain hlogin hsplit huser, if_neg]
      intro ⟨_, _, hall⟩
      have hspace := List.all_eq_true.mp hall c hc
      simp [hblank] at hspace
    have htext := at_text (s := dst) (by simp [hdstText])
    have hprincipal := at_text (s := user ++ "@" ++ name) (by simp)
    have hne : dst ≠ user ++ "@" ++ name := by
      intro h
      have hlength := congrArg (fun s : String => s.toList.length) h
      simp [hdstText, hhost] at hlength
    apply differs_of_node
    rw [hcompiled, hwritten]
    exact exists_separating hdst htext.1 htext.2.1
      (named_form_eq_none.mp hplain.named) htext.2.2.1
      hne hprincipal.1 hprincipal.2.1 hprincipal.2.2.2

theorem matches_own_network {policy : Policy} {net : String} (h : isIpOrCidrStr net = true) :
    (resolveSingle policy net).matchesNode { id := 1, addresses := [net] } = true := by
  have hform := only_network h
  obtain ⟨⟨ip, bits⟩, hparsed⟩ := Option.isSome_iff_exists.mp (is_ip_or_cidr_iff.mp h)
  rw [matches_plain_iff (strip_prefix_eq_none.mpr hform.group) hform.autogroup, PlainNames,
    if_neg hform.any, if_neg (by simp [hform.tag, hform.login]), if_pos h]
  exact ⟨net, by simp, lies_in_normalize.mpr ⟨ip, bits, ip, bits, hparsed, hparsed,
    same_network_refl bits ip⟩⟩

theorem trim_host_ident {s : String} (h : isHostIdent s = true) : trim s ≠ "" := by
  simp only [isHostIdent, Bool.and_eq_true, decide_eq_true_eq, List.all_eq_true] at h
  obtain ⟨hne, hchars⟩ := h
  obtain ⟨c, hc⟩ := List.exists_mem_of_ne_nil s.toList
    fun h => hne (String.toList_inj.mp (h.trans String.toList_empty.symm))
  refine trim_ne_empty hc ?_
  have hchar := hchars c hc
  simp only [Bool.or_eq_true, beq_iff_eq] at hchar
  rcases hchar with ((halnum | rfl) | rfl) | rfl
  · exact not_whitespace_alphanumeric halnum
  · decide
  · decide
  · decide

theorem differs_login_user {user host before after : String} (hdst : isDst dst = true)
    (hplain : PlainDst dst) (hlogin : splitOnce '@' dst = some (user, host))
    (hcolon : ':' ∉ host.toList) (hbefore : rsplitOnce ':' user = some (before, after))
    (hhost : HostLike before) : Differs dst := by
  obtain ⟨hdstText, hat⟩ := split_once_eq_some.mp hlogin
  obtain ⟨huserText, -⟩ := rsplit_once_eq_some.mp hbefore
  obtain ⟨hwritten, ⟨-, hnone⟩ | ⟨before', after', hbefore', -, hcompiled⟩⟩ :=
    compiled_login_user hplain hlogin hcolon
  · exact absurd hhost (hnone before after hbefore)
  rw [hbefore, Option.some_inj, Prod.mk.injEq] at hbefore'
  obtain ⟨rfl, rfl⟩ := hbefore'
  have htext := at_text (s := dst) (by simp [hdstText])
  have hnamed (pre : String) (hpre : pre ∈ namedPrefixes) : startsWith pre before = false := by
    by_contra h
    refine not_named_of_append hplain (":" ++ after ++ "@" ++ host) ?_
      ⟨pre, hpre, Bool.not_eq_false _ ▸ h⟩
    exact String.toList_inj.mp (by simp [hdstText, huserText])
  have hbare {policy : Policy} {node : CompileNode} :
      (resolveBare policy before).matchesNode node = true ↔
        (resolveSingle policy before).matchesNode node = true :=
    matches_bare_iff (group_group_of_group (hnamed "group:" (by decide)))
  have hunknown {node : CompileNode} (hlogin : node.userLogin = none) (htags : node.tags = []) :
      ¬(resolveSingle (ruleFor dst ∅ ∅) dst).matchesNode node = true :=
    not_matches_unknown rfl (by simp [ruleFor]) (by simp [hlogin]) htags htext.1 htext.2.1
      htext.2.2.2
  obtain ⟨haccepted, hmem⟩ := accepted_plain_rule hdst
  apply differs_of_node
  rw [hcompiled, hwritten]
  rcases hhost.2 with rfl | hnet | hident
  · refine ⟨_, haccepted, hmem, { id := 1 }, ?_, hunknown rfl rfl⟩
    rw [hbare, matches_plain_iff (by decide) (by decide), PlainNames, if_pos rfl]
    trivial
  · exact ⟨_, haccepted, hmem, _, hbare.mpr (matches_own_network hnet), hunknown rfl rfl⟩
  · cases hnet : isIpOrCidrStr before with
    | true => exact ⟨_, haccepted, hmem, _, hbare.mpr (matches_own_network hnet), hunknown rfl rfl⟩
    | false =>
      have hany : before ≠ "*" := by
        rintro rfl
        exact absurd hident (by decide)
      have hne : before ≠ dst := by
        intro h
        rw [h, not_host_ident_of_mem (c := '@') (by simp [hdstText]) (by decide)] at hident
        cases hident
      have htrim := trim_host_ident hident
      exact exists_separating hdst hany hnet hnamed htrim hne htext.1 htext.2.1 htext.2.2.2

theorem bracket_text {s : String} (h : startsWith "[" s = true) :
    s ≠ "*" ∧ isIpOrCidrStr s = false ∧ trim s ≠ "" ∧
      ∀ pre ∈ namedPrefixes, startsWith pre s = false := by
  have hmem := mem_of_starts_with h (by decide : '[' ∈ "[".toList)
  refine ⟨?_, not_network_of_mem hmem (by decide), trim_ne_empty hmem (by decide), ?_⟩
  · rintro rfl
    exact absurd h (by decide)
  · intro pre hpre
    by_contra hstarts
    obtain ⟨rest, rfl⟩ := starts_with_iff.mp (Bool.not_eq_false _ ▸ hstarts)
    simp [named_not_bracket hpre] at h

theorem compiled_brackets {inner : String} (hports : splitBracketedPorts dst = none)
    (hinner : bracketed dst = some inner) :
    startsWith "[" (compiled dst).principal = true ∧ (compiled dst).principal ≠ inner := by
  have htext := bracketed_eq_some hinner
  have hany : dst ≠ "*" := by
    rintro rfl
    simp at htext
  rw [compiled, if_neg hany, hports]
  cases hsplit : splitPortsLiteral dst with
  | none =>
    refine ⟨by simp [startsWith, htext, List.isPrefixOf], fun h => ?_⟩
    have hlength := congrArg (fun s : String => s.toList.length) h
    simp [htext] at hlength
    omega
  | some parts =>
    obtain ⟨host, ports⟩ := parts
    rw [split_ports_literal_eq, Option.filter_eq_some_iff] at hsplit
    obtain ⟨hwhole, hok⟩ := hsplit
    simp only [Bool.and_eq_true, decide_eq_true_eq, ne_eq] at hok
    refine ⟨bracket_of_split hinner hwhole hok.1.1.1, ?_⟩
    rintro rfl
    -- Counted in colons, the text before the last one is shorter than what the brackets hold.
    have hcount := congrArg (List.count ':') ((rsplit_once_eq_some.mp hwhole).1.symm.trans htext)
    simp at hcount

theorem differs_brackets {inner : String} (hdst : isDst dst = true)
    (hports : splitBracketedPorts dst = none) (hinner : bracketed dst = some inner) :
    Differs dst := by
  obtain ⟨hstarts, hne⟩ := compiled_brackets hports hinner
  obtain ⟨hany, hnet, htrim, hnamed⟩ := bracket_text hstarts
  have hwritten : (written dst).principal = inner := by
    have hstar : dst ≠ "*" := by
      rintro rfl
      simp [bracketed] at hinner
    rw [written, if_neg hstar, hports, hinner]
  have hform : isIpOrCidrStr inner = true ∨ '@' ∈ inner.toList := by
    cases dst_form hdst with
    | any h => exact absurd h (by rintro rfl; simp [bracketed] at hinner)
    | bracketedPorts host ports h => simp [hports] at h
    | brackets inner' _ h hform =>
      rw [hinner, Option.some_inj] at h
      exact h ▸ hform
    | named pre rest hpre h => simp [h, bracketed_none (named_not_bracket hpre)] at hinner
    | login _ _ hplain | hostPorts _ _ hplain | host hplain => simp [hplain.bracketed] at hinner
  rcases hform with hip | hat
  · obtain ⟨haccepted, hmem⟩ := accepted_plain_rule hdst
    refine ⟨_, haccepted, hmem, fun hagrees => ?_⟩
    have hmatch := ((dst_agrees_iff.mp hagrees).1 _).mpr (hwritten ▸ matches_own_network hip)
    rw [matches_bare_iff (group_group_of_group (hnamed "group:" (by decide)))] at hmatch
    refine not_matches_unknown rfl (by simp [ruleFor]) (by simp) rfl hany hnet ?_ hmatch
    intro name _ h
    have hauto := hnamed "autogroup:" (by decide)
    rw [h, starts_with_append] at hauto
    cases hauto
  · have htext := at_text hat
    apply differs_of_node
    rw [hwritten]
    exact exists_separating hdst hany hnet hnamed htrim hne htext.1 htext.2.1 htext.2.2.2

def groupFor (dst group : String) : Policy :=
  ruleFor dst ∅ ((∅ : BTreeMap String (List String)).insert group ["alice@example.com"])

theorem group_members_group_for {group name : String} :
    groupMembers (groupFor dst group) name =
      if group = name then ["alice@example.com"] else [] := by
  simp only [groupMembers, groupFor, ruleFor, Std.ExtTreeMap.getElem?_insert,
    Std.LawfulEqOrd.compare_eq_iff_eq]
  split <;> simp

theorem accepted_group_for (group : String) (hdst : isDst dst = true) (hgroup : trim group ≠ "") :
    Accepted (groupFor dst group) ∧ dst ∈ destinations (groupFor dst group) := by
  refine accepted_rule_for hdst ∅ _ (by simp) ?_
  intro name members h
  obtain ⟨rfl, rfl⟩ := getElem?_singleton h
  exact ⟨hgroup, by decide⟩

/-- A group whose name begins with `group:` once more. -/
theorem differs_group (hdst : isDst dst = true) (hread : compiled dst = written dst)
    (hgroup : startsWith "group:group:" (written dst).principal = true) : Differs dst := by
  obtain ⟨rest, hprincipal⟩ := starts_with_iff.mp hgroup
  have hname : (written dst).principal = "group:" ++ ("group:" ++ rest) := by
    rw [hprincipal, ← String.append_assoc]
    rfl
  have hshort : "group:" ++ rest ≠ trimStartMatches "group:" ("group:" ++ rest) := by
    intro h
    have hlength := length_trim_start_matches_le "group:" rest
    rw [← trim_start_matches_append (by decide), ← h] at hlength
    simp at hlength
    omega
  obtain ⟨haccepted, hmem⟩ := accepted_group_for ("group:" ++ rest) hdst
    (trim_ne_empty (c := 'g') (by simp) (by decide))
  refine ⟨_, haccepted, hmem, fun hagrees => ?_⟩
  have hmatch := (dst_agrees_iff.mp hagrees).1 { id := 1, userLogin := some "alice@example.com" }
  rw [hread, hname, matches_bare_group_iff, matches_group_iff] at hmatch
  have hmember : "alice@example.com" ∈
      groupMembers (groupFor dst ("group:" ++ rest)) ("group:" ++ rest) := by
    rw [group_members_group_for, if_pos rfl]
    exact List.mem_singleton_self _
  have hplain : PlainNames (groupFor dst ("group:" ++ rest)) "alice@example.com"
      { id := 1, userLogin := some "alice@example.com" } := by
    rw [PlainNames, if_neg (by decide), if_pos (by decide)]
    exact .inl rfl
  obtain ⟨member, hnone, -⟩ := member_names_step.mp (hmatch.mpr
    ⟨"alice@example.com", ⟨"group:" ++ rest, .refl, hmember, by decide⟩, by decide, hplain⟩)
  rw [group_members_group_for, if_neg hshort] at hnone
  cases hnone

theorem differs_ports {ports : String} (hdst : isDst dst = true)
    (hread : compiled dst = written dst)
    (hports : (written dst).ports = some ports) (hnone : ¬∃ port, PortWritten ports port) :
    Differs dst := by
  obtain ⟨haccepted, hmem⟩ := accepted_plain_rule hdst
  refine ⟨_, haccepted, hmem, fun hagrees => hnone ?_⟩
  have hagree := (dst_agrees_iff.mp hagrees).2
  rw [hread, hports] at hagree
  exact ports_agree_parse_ports.mp hagree

/-- The texts that are compiled to what they say. -/
structure WellWritten (dst : String) : Prop extends ReadAsWritten dst where
  /-- The name of a group does not begin with `group:` once more. -/
  group : startsWith "group:group:" (written dst).principal = false
  /-- A port list names a port. -/
  ports : ∀ ports ∈ (written dst).ports, ∃ port, PortWritten ports port

theorem is_dst_of_accepted {policy : Policy} (haccepted : Accepted policy)
    (hdst : dst ∈ destinations policy) : isDst dst = true := by
  have hvalid := accepted_iff.mp haccepted
  rcases List.mem_append.mp hdst with h | h
  · obtain ⟨rule, hrule, hmem⟩ := List.mem_flatMap.mp h
    exact (hvalid.acls rule hrule).2.dst dst hmem
  · obtain ⟨grant, hgrant, hmem⟩ := List.mem_flatMap.mp h
    exact (hvalid.grants grant hgrant).dst dst hmem

theorem read_as_written_of_not_differs (hdst : isDst dst = true)
    (h : ¬Differs dst) : ReadAsWritten dst where
  named := by
    intro pre rest hnamed
    obtain ⟨hpre, rfl⟩ := named_form_eq_some hnamed
    by_contra hcolon
    exact h (differs_named hdst hpre hcolon)
  brackets := by
    intro hports
    by_contra hinner
    obtain ⟨inner, hinner⟩ := Option.ne_none_iff_exists'.mp hinner
    exact h (differs_brackets hdst hports hinner)
  loginPorts := by
    intro hplain user host hlogin hports c hc
    by_contra hblank
    have huser : user ≠ "" := by
      rintro rfl
      simp at hc
    exact h (differs_login_ports hdst hplain hlogin huser hports hc (Bool.not_eq_false _ ▸ hblank))
  loginUser := by
    intro hplain user host hlogin hcolon before after hbefore hhost
    exact h (differs_login_user hdst hplain hlogin hcolon hbefore hhost)

/-- A destination is compiled to what is written in every accepted policy that has it exactly when
its text is well written. -/
theorem destination_agrees_iff (dst : String) :
    (∀ policy, Accepted policy → dst ∈ destinations policy → DstAgrees policy dst) ↔
      (isDst dst = true → WellWritten dst) := by
  constructor
  · intro hall hdst
    have hsame : ¬Differs dst :=
      fun ⟨policy, haccepted, hmem, hnot⟩ => hnot (hall policy haccepted hmem)
    have hread := read_as_written_of_not_differs hdst hsame
    have hcompiled := compiled_eq_written hdst hread
    refine ⟨hread, ?_, ?_⟩
    · by_contra hgroup
      exact hsame (differs_group hdst hcompiled (Bool.not_eq_false _ ▸ hgroup))
    · intro ports hports
      by_contra hnone
      exact hsame (differs_ports hdst hcompiled hports hnone)
  · intro hwell policy haccepted hmem
    have hdst := is_dst_of_accepted haccepted hmem
    have h := hwell hdst
    rw [dst_agrees_iff, compiled_eq_written hdst h.toReadAsWritten]
    refine ⟨fun node => matches_bare_iff h.group, ?_⟩
    cases hports : (written dst).ports with
    | none => exact fun port => port_in_all_ports
    | some ports => exact ports_agree_parse_ports.mpr (h.ports ports hports)

def bareTagPolicy : Policy := ruleFor "tag:web" ∅ ∅

/-- The validator accepts it, and the compiled destination holds no node and no port. -/
theorem bare_tag_misread :
    validatePolicy "" bareTagPolicy = .ok () ∧ "tag:web" ∈ destinations bareTagPolicy ∧
      (resolveSingle bareTagPolicy "tag:web").matchesNode webServer = true ∧
      (parseDst bareTagPolicy "tag:web").map
        (fun target => (target.matchesNode webServer, target.ports)) =
        some (false, []) := by
  decide +kernel

end Crabscale.Policy
