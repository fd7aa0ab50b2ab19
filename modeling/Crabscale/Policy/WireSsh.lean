import Crabscale.Policy.Principals
import Crabscale.Policy.Ssh
import Mathlib.Data.List.Find

/-!
# The SSH decision on the wire

A node decides SSH connections by the wire policy it was sent, the server by the compiled rules.
Both take the first rule that applies, and the wire list is the image of the compiled one;
`applies_to_wire_rule` says when a rule and its image apply to the same connections.
-/

namespace Crabscale.Policy

open Rust Proto

/-! ## The two decisions -/

/-- What a decision does with a connection, up to the details of its action. -/
inductive SshKind where
  | accept
  | check
  deriving DecidableEq

def SshRuleAction.kind : SshRuleAction → SshKind
  | .accept => .accept
  | .check _ => .check

def wireKind (action : SshAction) : Option SshKind :=
  if action.accept then some .accept
  else if action.holdAndDelegate ≠ "" then some .check
  else none

def covers (src : CompileNode) (principal : SshPrincipal) : Bool :=
  principal.any || (principal.node ≠ "" && principal.node == src.stableId) ||
    (principal.userLogin ≠ "" && src.userLogin.any fun login => principal.userLogin == login)

def wireApplies (src : CompileNode) (sshUser : String) (rule : WireSshRule) : Bool :=
  rule.principals.any (covers src) &&
    (rule.sshUsers.contains sshUser || rule.sshUsers.contains "*")

def wireDecision (policy : Option SshPolicy) (src : CompileNode) (sshUser : String) :
    Option SshKind := do
  let policy ← policy
  let rule ← policy.rules.find? (wireApplies src sshUser)
  let action ← rule.action
  wireKind action

def serverDecision (compiled : CompiledSshPolicy) (srcId dstId : Nat) (sshUser : String) :
    Option SshKind :=
  (firstMatchingSshRule compiled srcId dstId sshUser).map fun rule => rule.action.kind

/-! ## The rules of a destination -/

section Rules

variable {policy : Policy} {nodes : List CompileNode}

def compiledSshRule (policy : Policy) (nodes : List CompileNode) (rule : SshRule) :
    CompiledSshRule :=
  let src := resolve policy rule.src
  { src := rule.src
    srcNodes := (nodes.filter src.matchesNode).foldl (fun ids node => ids.insert node.id) ∅
    srcAll := src.wildcard || src.selfMatch
    users := rule.users
    action :=
      if rule.action = "accept" then .accept
      else .check ((rule.checkPeriod.bind parseSshDuration).getD defaultSshCheckPeriod) }

def sshRulesFor (policy : Policy) (dst : CompileNode) : List SshRule :=
  policy.ssh.filter fun rule => (resolve policy rule.dst).matchesNode dst

/-- The rules filed under an id: each rule once for every node of that id among its
destinations. -/
theorem entries_at_ssh_rules (id : Nat) :
    entriesAt (compileSshPolicy policy nodes).nodeRules id =
      policy.ssh.flatMap fun rule => nodes.flatMap fun node =>
        if (resolve policy rule.dst).matchesNode node = true ∧ node.id = id then
          [compiledSshRule policy nodes rule]
        else [] := by
  have hrule (nodeRules : BTreeMap Nat (List CompiledSshRule)) (rule : SshRule) :
      entriesAt (compileSshRule policy nodes nodeRules rule) id =
        entriesAt nodeRules id ++ nodes.flatMap fun node =>
          if (resolve policy rule.dst).matchesNode node = true ∧ node.id = id then
            [compiledSshRule policy nodes rule]
          else [] :=
    entries_at_push_kept CompileNode.id nodes nodeRules (resolve policy rule.dst).matchesNode _ id
  refine (foldl_append_flatMap (L := fun nodeRules => entriesAt nodeRules id) hrule policy.ssh
    _).trans ?_
  -- The entries made before the loop are empty.
  rw [entries_at_touch_all, entries_at_empty, List.nil_append]

theorem entries_at_compile_ssh (hids : (nodes.map CompileNode.id).Nodup) {dst : CompileNode}
    (hdst : dst ∈ nodes) :
    entriesAt (compileSshPolicy policy nodes).nodeRules dst.id =
      (sshRulesFor policy dst).map (compiledSshRule policy nodes) := by
  have honce (rule : SshRule) : (nodes.flatMap fun node =>
      if (resolve policy rule.dst).matchesNode node = true ∧ node.id = dst.id then
        [compiledSshRule policy nodes rule] else []) =
      if (resolve policy rule.dst).matchesNode dst then [compiledSshRule policy nodes rule]
      else [] := by
    -- Only the node itself has its id.
    rw [flatMap_eq_of_nodup CompileNode.id hids hdst]
    · simp
    · intro node _ hne
      exact if_neg fun h => hne h.2
  rw [entries_at_ssh_rules, sshRulesFor]
  simp only [honce]
  induction policy.ssh with
  | nil => rfl
  | cons rule rules ih =>
    rw [List.flatMap_cons, ih, List.filter_cons]
    split <;> rfl

theorem first_matching_ssh_rule_eq (compiled : CompiledSshPolicy) (srcId dstId : Nat)
    (sshUser : String) :
    firstMatchingSshRule compiled srcId dstId sshUser =
      (entriesAt compiled.nodeRules dstId).find? fun rule =>
        (rule.srcAll || rule.srcNodes.contains srcId) &&
          (rule.users.isEmpty || rule.users.any fun user => user == sshUser || user == "*") := by
  unfold firstMatchingSshRule entriesAt
  cases compiled.nodeRules[dstId]? with
  | none => rfl
  | some rules => rfl

def wireSshRule (serverUrl : String) (nodes : List CompileNode) (rule : CompiledSshRule) :
    WireSshRule :=
  { principals := rolePrincipals rule nodes
    sshUsers := rule.users.foldl (fun users user => users.insert user "=") ∅
    action := some (wireSshAction serverUrl rule.action) }

theorem wire_kind_action (serverUrl : String) (action : SshRuleAction) :
    wireKind (wireSshAction serverUrl action) = some action.kind := by
  cases action with
  | accept => rfl
  | check period =>
    have hurl : (wireSshAction serverUrl (.check period)).holdAndDelegate ≠ "" := by
      simp [wireSshAction]
    show (if (wireSshAction serverUrl (.check period)).holdAndDelegate ≠ ""
      then some SshKind.check else none) = some SshKind.check
    rw [if_pos hurl]

def wirePolicy (rules : List WireSshRule) : Option SshPolicy :=
  if rules = [] then none else some { rules }

theorem build_wire_ssh_policy_eq (compiled : CompiledSshPolicy) (dstId : Nat) (serverUrl : String) :
    buildWireSshPolicy compiled dstId serverUrl nodes =
      wirePolicy ((entriesAt compiled.nodeRules dstId).map (wireSshRule serverUrl nodes)) := by
  unfold buildWireSshPolicy entriesAt
  cases compiled.nodeRules[dstId]? with
  | none => rfl
  | some rules =>
    cases rules with
    | nil => rfl
    | cons rule rules => rfl

theorem wire_decision_eq (compiled : CompiledSshPolicy) (dstId : Nat) (serverUrl : String)
    (src : CompileNode) (sshUser : String) :
    wireDecision (buildWireSshPolicy compiled dstId serverUrl nodes) src sshUser =
      ((entriesAt compiled.nodeRules dstId).find? fun rule =>
        wireApplies src sshUser (wireSshRule serverUrl nodes rule)).map fun rule =>
          rule.action.kind := by
  have hfind (rules : List WireSshRule) : wireDecision (wirePolicy rules) src sshUser =
      (rules.find? (wireApplies src sshUser)).bind fun rule => rule.action.bind wireKind := by
    cases rules with
    | nil => rfl
    | cons rule rules => rfl
  rw [build_wire_ssh_policy_eq, hfind, List.find?_map, Option.bind_map, Option.map_eq_bind]
  congr 1
  funext rule
  exact wire_kind_action serverUrl rule.action

end Rules

/-! ## One rule on both sides -/

section OneRule

variable {policy : Policy} {nodes : List CompileNode} {src : CompileNode}

theorem covers_node (stableId : String) :
    covers src { node := stableId } = true ↔ stableId ≠ "" ∧ stableId = src.stableId := by
  simp [covers]

theorem covers_login (login : String) :
    covers src { userLogin := login } = true ↔ login ≠ "" ∧ src.userLogin = some login := by
  simp [covers, Option.any_eq_true]

theorem login_principals_cover (selectors : List String) (principals : List SshPrincipal) :
    (loginPrincipals selectors principals).any (covers src) = true ↔
      principals.any (covers src) = true ∨
        ∃ selector ∈ selectors, '@' ∈ selector.toList ∧ src.userLogin = some selector := by
  refine foldl_iff_exists (P := fun principals : List SshPrincipal =>
    principals.any (covers src) = true) ?_ _ _
  intro principals selector
  have hne (hat : '@' ∈ selector.toList) : selector ≠ "" := by
    intro hempty
    rw [hempty] at hat
    cases hat
  split
  case isTrue hnew =>
    have hat : '@' ∈ selector.toList := by simp_all
    simp only [List.any_append, List.any_cons, List.any_nil, Bool.or_false, Bool.or_eq_true,
      covers_login]
    simp only [hat, hne hat, true_and, ne_eq, not_false_eq_true]
  case isFalse hold =>
    refine ⟨.inl, ?_⟩
    rintro (h | ⟨hat, howner⟩)
    · exact h
    · -- A selector that is not added again has its principal already.
      have hseen : principals.any (fun p => p.userLogin == selector) = true := by simp_all
      obtain ⟨principal, hmem, hlogin⟩ := List.any_eq_true.mp hseen
      refine List.any_eq_true.mpr ⟨principal, hmem, ?_⟩
      simp [covers, eq_of_beq hlogin, howner, hne hat]

theorem node_principals_cover (ids : List Nat) :
    (nodePrincipals ids nodes).any (covers src) = true ↔
      ∃ id ∈ ids, ∃ node, nodes.find? (fun n => n.id == id) = some node ∧
        node.stableId ≠ "" ∧ node.stableId = src.stableId := by
  unfold nodePrincipals
  rw [foldl_iff_exists (P := fun principals : List SshPrincipal =>
    principals.any (covers src) = true)
    (Q := fun id => ∃ node, nodes.find? (fun n => n.id == id) = some node ∧
      node.stableId ≠ "" ∧ node.stableId = src.stableId)]
  · simp
  intro principals id
  cases nodes.find? fun n => n.id == id with
  | none => simp
  | some node =>
    simp only [Option.some.injEq, exists_eq_left']
    split
    case isTrue => simp [covers_node]
    case isFalse hold =>
      refine ⟨.inl, ?_⟩
      rintro (h | ⟨hne, hsame⟩)
      · exact h
      · have hseen : principals.any (fun p => p.node == node.stableId) = true := by simp_all
        obtain ⟨principal, hmem, hnode⟩ := List.any_eq_true.mp hseen
        refine List.any_eq_true.mpr ⟨principal, hmem, ?_⟩
        simp [covers, eq_of_beq hnode, hsame, hsame ▸ hne]

theorem resolve_identities {targets : List String} {identity : String} :
    identity ∈ (resolve policy targets).identities ↔
      ∃ target ∈ targets, identity ∈ (resolveSingle policy target).identities := by
  show identity ∈ (targets.foldl (fun (resolved : ResolvedTarget) target =>
    resolved.merge (resolveSingle policy target)) {}).identities ↔ _
  rw [foldl_iff_exists (P := fun resolved : ResolvedTarget => identity ∈ resolved.identities)
    (Q := fun target => identity ∈ (resolveSingle policy target).identities)]
  · simp
  · intro resolved target
    exact Std.ExtTreeSet.mem_union_iff

/-- A selector with an `@` that is no group resolves to itself. -/
theorem resolve_single_at {selector : String} (hform : isPrincipal selector = true)
    (hat : '@' ∈ selector.toList) (hauto : startsWith "autogroup:" selector = false)
    (hgroup : startsWith "group:" selector = false) :
    selector ∈ (resolveSingle policy selector).identities := by
  have hstar : selector ≠ "*" := by
    rintro rfl
    exact absurd hat (by decide)
  unfold resolveSingle resolveSingleWithin
  rw [if_neg hstar, strip_prefix_eq_none.mpr hauto, strip_prefix_eq_none.mpr hgroup]
  dsimp only
  cases principal_form hform with
  | any h => exact absurd h hstar
  | autogroup name h => simp [h] at hauto
  | group name h => simp [h] at hgroup
  | tag name h hname =>
    rw [if_pos (starts_with_iff.mpr ⟨name, h⟩)]
    simp
  | login h =>
    rw [h.2.2.2, if_neg Bool.false_ne_true, if_pos h.1]
    simp
  | network h => simp [not_network_of_mem hat (by decide)] at h

/-- Every selector that names the owner of the node by login resolves to that login. A group and an
autogroup resolve to something else, whatever their names. -/
def LoginsResolve (rule : SshRule) (src : CompileNode) : Prop :=
  ∀ login ∈ src.userLogin, login ∈ rule.src →
    startsWith "autogroup:" login = false ∧ startsWith "group:" login = false

instance (rule : SshRule) (src : CompileNode) : Decidable (LoginsResolve rule src) :=
  inferInstanceAs (Decidable (∀ login ∈ src.userLogin, login ∈ rule.src →
    startsWith "autogroup:" login = false ∧ startsWith "group:" login = false))

/-- The nodes the wire policy is built for: distinct ids and distinct stable ids, none empty. -/
structure Identified (nodes : List CompileNode) : Prop where
  ids : (nodes.map CompileNode.id).Nodup
  stableIds : (nodes.map CompileNode.stableId).Nodup
  nonempty : ∀ node ∈ nodes, node.stableId ≠ ""

theorem mem_src_nodes {id : Nat} (rule : SshRule) :
    id ∈ (compiledSshRule policy nodes rule).srcNodes ↔
      ∃ node ∈ nodes, (resolve policy rule.src).matchesNode node = true ∧ node.id = id := by
  show id ∈ List.foldl _ (∅ : BTreeSet Nat) _ ↔ _
  rw [foldl_iff_exists (P := fun ids : BTreeSet Nat => id ∈ ids)
    (Q := fun node : CompileNode => node.id = id)]
  · simp only [Std.ExtTreeSet.not_mem_empty, false_or, List.mem_filter, and_assoc]
  · intro ids node
    rw [Std.ExtTreeSet.mem_insert, Std.LawfulEqOrd.compare_eq_iff_eq, or_comm]

theorem contains_src_nodes (hids : (nodes.map CompileNode.id).Nodup) (hsrc : src ∈ nodes)
    (rule : SshRule) :
    (compiledSshRule policy nodes rule).srcNodes.contains src.id = true ↔
      (resolve policy rule.src).matchesNode src = true := by
  rw [Std.ExtTreeSet.contains_iff_mem, mem_src_nodes]
  constructor
  · rintro ⟨node, hnode, hmatch, hid⟩
    obtain rfl := List.inj_on_of_nodup_map hids hnode hsrc hid
    exact hmatch
  · intro hmatch
    exact ⟨src, hsrc, hmatch, rfl⟩

/-- The source side: the wire principals cover exactly the nodes that the server's test admits. -/
theorem role_principals_cover (hnodes : Identified nodes) (hsrc : src ∈ nodes) {rule : SshRule}
    (htargets : ∀ selector ∈ rule.src, isPrincipal selector = true)
    (hlogins : LoginsResolve rule src) :
    (rolePrincipals (compiledSshRule policy nodes rule) nodes).any (covers src) = true ↔
      ((compiledSshRule policy nodes rule).srcAll ||
        (compiledSshRule policy nodes rule).srcNodes.contains src.id) = true := by
  unfold rolePrincipals
  by_cases hall : (compiledSshRule policy nodes rule).srcAll = true
  · rw [if_pos hall, login_principals_cover, hall]
    simp [covers]
  rw [if_neg hall, login_principals_cover, node_principals_cover, Bool.eq_false_iff.mpr hall,
    Bool.false_or]
  simp only [Std.ExtTreeSet.mem_toList, ← Std.ExtTreeSet.contains_iff_mem]
  constructor
  · rintro (⟨id, hid, node, hfound, -, hstable⟩ | ⟨selector, hmem, hat, howner⟩)
    · obtain rfl := List.inj_on_of_nodup_map hnodes.stableIds (List.mem_of_find?_eq_some hfound)
        hsrc hstable
      have hid' : node.id = id := by simpa using List.find?_some hfound
      rwa [hid']
    · have hmem : selector ∈ rule.src := hmem
      obtain ⟨hauto, hgroup⟩ := hlogins selector howner hmem
      have hidentity : selector ∈ (resolve policy rule.src).identities :=
        resolve_identities.mpr
          ⟨selector, hmem, resolve_single_at (htargets selector hmem) hat hauto hgroup⟩
      refine (contains_src_nodes hnodes.ids hsrc rule).mpr (matches_node_iff.mpr ?_)
      refine .inr (.inl (.inr ?_))
      simp [ResolvedTarget.identityMatch, howner, hidentity]
  · intro hid
    refine .inl ⟨src.id, hid, src, ?_, hnodes.nonempty src hsrc, rfl⟩
    exact find?_eq_some_of_nodup CompileNode.id hnodes.ids hsrc

theorem contains_ssh_users (users : List String) (user : String) :
    (users.foldl (fun sent user => sent.insert user "=") (∅ : BTreeMap String String)).contains user
        = true ↔ user ∈ users := by
  rw [foldl_iff_exists (P := fun sent : BTreeMap String String => sent.contains user = true)
    (Q := fun sent => sent = user)]
  · simp
  · intro sent other
    simp [Std.ExtTreeMap.contains_insert, or_comm]

theorem applies_to_wire_rule (hnodes : Identified nodes) (hsrc : src ∈ nodes) {rule : SshRule}
    (htargets : ∀ selector ∈ rule.src, isPrincipal selector = true)
    (hlogins : LoginsResolve rule src) (husers : rule.users ≠ []) (serverUrl sshUser : String) :
    wireApplies src sshUser (wireSshRule serverUrl nodes (compiledSshRule policy nodes rule)) =
      (((compiledSshRule policy nodes rule).srcAll ||
          (compiledSshRule policy nodes rule).srcNodes.contains src.id) &&
        (rule.users.isEmpty || rule.users.any fun user => user == sshUser || user == "*")) := by
  have husers' : rule.users.isEmpty = false := by simpa using husers
  rw [Bool.eq_iff_iff, wireApplies, Bool.and_eq_true, Bool.and_eq_true, husers', Bool.false_or]
  refine and_congr (role_principals_cover hnodes hsrc htargets hlogins) ?_
  rw [Bool.or_eq_true]
  refine (or_congr (contains_ssh_users rule.users _) (contains_ssh_users rule.users _)).trans ?_
  rw [List.any_eq_true]
  constructor
  · rintro (h | h)
    · exact ⟨sshUser, h, by simp⟩
    · exact ⟨"*", h, by simp⟩
  · rintro ⟨user, hmem, huser⟩
    rcases (by simpa using huser : user = sshUser ∨ user = "*") with rfl | rfl
    · exact .inl hmem
    · exact .inr hmem

end OneRule

/-! ## Agreement -/

/-- For a rule that concerns the destination, what the two readings need to agree: it names a user,
and no group among its sources is written like the owner of the source node. -/
def ReadAlike (rule : SshRule) (src : CompileNode) : Prop :=
  rule.users ≠ [] ∧ LoginsResolve rule src

instance (rule : SshRule) (src : CompileNode) : Decidable (ReadAlike rule src) :=
  inferInstanceAs (Decidable (_ ∧ _))

/-- Operators may log in to the web servers as root, after a check. -/
def sshPolicy : Policy where
  groups := BTreeMap.from [("ops", ["alice@example.com"])]
  ssh := [{ action := "check", src := ["group:ops"], dst := ["tag:web"], users := ["root"] }]

def sshLaptop : CompileNode :=
  { id := 1, stableId := "n1", userLogin := some "alice@example.com", addresses := ["100.64.0.1"] }

def sshServer : CompileNode :=
  { id := 2, stableId := "n2", addresses := ["100.64.0.2"], tags := ["tag:web"] }

/-- Anybody may log in anywhere, as any user: the rule names no users. -/
def openSshPolicy : Policy where
  ssh := [{ action := "accept", src := ["*"], dst := ["*"], users := [] }]

end Crabscale.Policy
