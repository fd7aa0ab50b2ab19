import Crabscale.Policy.Compile

/-!
# The policy validator

The checks of a parsed policy document, in their order, with the line and the text of each error.
`accepted_iff` says what `Accepted` documents are, whatever their text. `is_ip_or_cidr` of the
validator also tests that the prefix length is not empty, which parsing it as a number does already,
so it is the compiler's `isIpOrCidrStr`.
-/

namespace Crabscale.Policy

open Rust Proto

structure HujsonError where
  line : Nat
  column : Nat
  message : String
  deriving DecidableEq

/-! ## Targets -/

/-- A source: `*`, an autogroup, a group, a tag, a login, or an address or network. -/
def isPrincipal (target : String) : Bool :=
  if target = "*" then true
  else
    match stripPrefix "autogroup:" target with
    | some rest => rest ≠ ""
    | none =>
      match stripPrefix "group:" target with
      | some rest => rest ≠ ""
      | none =>
        match stripPrefix "tag:" target with
        | some rest => rest ≠ ""
        | none =>
          match splitOnce '@' target with
          | some (user, host) =>
            user ≠ "" && host ≠ "" && user.toList.all fun c => !isWhitespace c
          | none => isIpOrCidrStr target

def isPlainIpv4OrCidr (s : String) : Bool :=
  !s.toList.contains ':' && s.toList.contains '.' && isIpOrCidrStr s

/-- Split `host:ports` at the last colon. A bare IPv6 address is not split. -/
def splitPorts (target : String) : Option (String × String) :=
  match rsplitOnce ':' target with
  | none => none
  | some (host, ports) =>
    if host = "" || ports = "" then none
    else if startsWith "[" host || isPlainIpv4OrCidr host || host = "*" || isHostIdent host then
      some (host, ports)
    else none

def bracketed (s : String) : Option String :=
  match s.toList with
  | '[' :: rest => if rest.getLast? = some ']' then some (String.ofList rest.dropLast) else none
  | _ => none

def stripBrackets (host : String) : String := (bracketed host).getD host

def validPortItem (item : String) : Bool :=
  let item := trim item
  if item = "" then false
  else
    match splitOnce '-' item with
    | some (lo, hi) =>
      match parseU16 lo, parseU16 hi with
      | some lo, some hi => lo > 0 && hi > 0 && lo ≤ hi
      | _, _ => false
    | none =>
      match parseU16 item with
      | some port => port > 0
      | none => false

/-- A port list: `*`, or ports and inclusive ranges between commas. -/
def validPortlist (ports : String) : Bool :=
  if ports = "*" then true
  else if ports = "" then false
  else (split ',' ports).all validPortItem

/-- A destination: a source or a host name, with an optional port list, addresses possibly in
brackets. The port list of a named principal is not looked at. -/
def isDst (target : String) : Bool :=
  if target = "*" then true
  else
    match stripPrefix "autogroup:" target with
    | some rest => rest ≠ ""
    | none =>
      match stripPrefix "group:" target with
      | some rest => rest ≠ ""
      | none =>
        match stripPrefix "tag:" target with
        | some rest => rest ≠ ""
        | none =>
          match splitOnce '@' target with
          | some (user, host) => user ≠ "" && host ≠ ""
          | none =>
            match splitPorts target with
            | some (host, ports) =>
              let host := stripBrackets host
              (host = "*" || isIpOrCidrStr host || isHostIdent host) &&
                validPortlist ports
            | none =>
              match bracketed target with
              | some host => isIpOrCidrStr host
              | none => isIpOrCidrStr target || isHostIdent target

/-! ## Checks -/

def locateLine (source needle : String) : Nat :=
  match (lines source).findIdx? (containsStr needle) with
  | some index => index + 1
  | none => 1

def errorHere (source needle message : String) : HujsonError :=
  { line := locateLine source needle, column := 1, message }

abbrev Check : Type := Except HujsonError Unit

/-- Reject with an error at the first line with a text unless a condition holds. -/
def require (source : String) (holds : Bool) (needle message : String) : Check :=
  if holds then .ok () else .error (errorHere source needle message)

def requireAll (source : String) (accepts : String → Bool) (message : String → String)
    (targets : List String) : Check :=
  targets.forM fun target => require source (accepts target) target (message target)

def validateTargets (source what kind name : String) (i : Nat) (src dst : List String) :
    Check := do
  require source (!(src.isEmpty || dst.isEmpty)) ""
    (what ++ " " ++ toString i ++ " must have at least one src and one dst")
  requireAll source isPrincipal
    (fun target => s!"invalid {kind} source target `{target}` ({name} {i})") src
  requireAll source isDst
    (fun target => s!"invalid {kind} destination target `{target}` ({name} {i})") dst

def validateGroups (source : String) (policy : Policy) : Check :=
  policy.groups.toList.forM fun (name, members) => do
    require source (trim name ≠ "") name "group name must not be empty"
    requireAll source isPrincipal (fun member => s!"invalid member `{member}` in group `{name}`")
      members

def validateHosts (source : String) (policy : Policy) : Check :=
  policy.hosts.toList.forM fun (name, value) => do
    require source (trim name ≠ "") name "host alias must not be empty"
    require source (isIpOrCidrStr value) value
      s!"host `{name}` maps to invalid target `{value}`"

/-- The network rules. -/
def validateAcls (source : String) (policy : Policy) : Check :=
  policy.acls.zipIdx.forM fun (rule, i) => do
    require source (rule.action = "accept") rule.action
      ("unsupported ACL action `" ++ rule.action ++ s!"` (rule {i})")
    validateTargets source "ACL rule" "ACL" "rule" i rule.src rule.dst

def validateGrants (source : String) (policy : Policy) : Check :=
  policy.grants.zipIdx.forM fun (grant, i) =>
    validateTargets source "grant" "grant" "grant" i grant.src grant.dst

def validateTagOwners (source : String) (policy : Policy) : Check :=
  policy.tagOwners.toList.forM fun (tag, owners) => do
    require source (startsWith "tag:" tag && tag.toList.length ≠ "tag:".toList.length) tag
      s!"tagOwner key `{tag}` must start with `tag:` and be non-empty"
    requireAll source isPrincipal (fun owner => s!"invalid tag owner `{owner}` for `{tag}`") owners

def validateApprovers (source what : String) (approvers : BTreeMap String (List String)) : Check :=
  approvers.toList.forM fun (route, approvers) => do
    require source (isIpOrCidrStr route) route
      s!"autoApprovers {what} `{route}` must be an IP or CIDR"
    requireAll source isPrincipal
      (fun approver => s!"invalid autoApprovers {what} approver `{approver}`") approvers

def validateSsh (source : String) (policy : Policy) : Check :=
  policy.ssh.zipIdx.forM fun (rule, i) => do
    require source (rule.action = "accept" || rule.action = "check") rule.action
      ("unsupported SSH action `" ++ rule.action ++ s!"` (rule {i})")
    validateTargets source "SSH rule" "SSH" "rule" i rule.src rule.dst
    requireAll source (fun user => trim user ≠ "") (fun _ => s!"SSH rule {i} has an empty user")
      rule.users

def validateNodeAttrs (source : String) (policy : Policy) : Check :=
  policy.nodeAttrs.zipIdx.forM fun (grant, i) => do
    require source (!(grant.target.isEmpty || grant.attr.isEmpty)) ""
      s!"nodeAttrs grant {i} must have at least one target and one attr"
    requireAll source isPrincipal (fun target =>
      s!"invalid nodeAttrs target `{target}` (grant {i})")
      grant.target

def validateTests (source : String) (policy : Policy) : Check :=
  policy.tests.zipIdx.forM fun (test, i) =>
    require source (isPrincipal test.src) test.src
      ("invalid test source `" ++ test.src ++ s!"` (test {i})")

def validateSshTests (source : String) (policy : Policy) : Check :=
  policy.sshTests.zipIdx.forM fun (test, i) => do
    require source (test.action = "accept" || test.action = "check") test.action
      ("unsupported SSH test action `" ++ test.action ++ s!"` (test {i})")
    require source (isPrincipal test.src && isDst test.dst) test.src
      ("invalid SSH test target `" ++ test.src ++ " -> " ++ test.dst ++ s!"` (test {i})")

def validatePolicy (source : String) (policy : Policy) : Check := do
  validateGroups source policy
  validateHosts source policy
  validateAcls source policy
  validateGrants source policy
  validateTagOwners source policy
  validateApprovers source "route" policy.autoApprovers.routes
  validateApprovers source "exitNode" policy.autoApprovers.exitNode
  validateSsh source policy
  validateNodeAttrs source policy
  validateTests source policy
  validateSshTests source policy

/-- A policy that the parser can return: it passes the checks against some document. -/
def Accepted (policy : Policy) : Prop := ∃ source, validatePolicy source policy = .ok ()

/-! ## What is accepted -/

theorem check_seq {first second : Check} :
    (first >>= fun _ => second) = .ok () ↔ first = .ok () ∧ second = .ok () := by
  cases first with
  | error e => simp [bind, Except.bind]
  | ok _ => simp [bind, Except.bind]

theorem check_for {α : Type} {check : α → Check} {xs : List α} :
    xs.forM check = .ok () ↔ ∀ x ∈ xs, check x = .ok () := by
  induction xs with
  | nil => simp [List.forM, pure, Except.pure]
  | cons x xs ih =>
    have hcons : (x :: xs).forM check = (check x >>= fun _ => xs.forM check) := rfl
    rw [hcons, check_seq, ih, List.forall_mem_cons]

theorem check_for_zip_idx {α : Type} {check : α × Nat → Check} {P : α → Prop} {xs : List α}
    (h : ∀ x i, check (x, i) = .ok () ↔ P x) : xs.zipIdx.forM check = .ok () ↔ ∀ x ∈ xs, P x := by
  rw [check_for]
  constructor
  · intro hall x hx
    obtain ⟨i, hi⟩ := List.mem_iff_getElem?.mp hx
    exact (h x i).mp (hall (x, i) (List.mem_zipIdx_iff_getElem?.mpr hi))
  · rintro hall ⟨x, i⟩ hi
    exact (h x i).mpr (hall x (List.fst_mem_of_mem_zipIdx hi))

theorem require_ok {source needle message : String} {holds : Bool} :
    require source holds needle message = .ok () ↔ holds = true := by
  cases holds <;> simp [require]

theorem require_all_ok {source : String} {accepts : String → Bool} {message : String → String}
    {targets : List String} :
    requireAll source accepts message targets = .ok () ↔
      ∀ target ∈ targets, accepts target = true := by
  rw [requireAll, check_for]
  simp only [require_ok]

/-- The sources and destinations of a rule are present and well formed. -/
structure ValidTargets (src dst : List String) : Prop where
  src_ne : src ≠ []
  dst_ne : dst ≠ []
  src : ∀ target ∈ src, isPrincipal target = true
  dst : ∀ target ∈ dst, isDst target = true

theorem validate_targets_ok {source what kind name : String} {i : Nat} {src dst : List String} :
    validateTargets source what kind name i src dst = .ok () ↔ ValidTargets src dst := by
  simp only [validateTargets, check_seq, require_ok, require_all_ok, Bool.not_eq_true',
    Bool.or_eq_false_iff, List.isEmpty_eq_false_iff]
  exact ⟨fun ⟨⟨hsrc, hdst⟩, hsrcs, hdsts⟩ => ⟨hsrc, hdst, hsrcs, hdsts⟩,
    fun ⟨hsrc, hdst, hsrcs, hdsts⟩ => ⟨⟨hsrc, hdst⟩, hsrcs, hdsts⟩⟩

structure ValidPolicy (policy : Policy) : Prop where
  groups : ∀ group ∈ policy.groups.toList,
    trim group.1 ≠ "" ∧ ∀ member ∈ group.2, isPrincipal member = true
  hosts : ∀ host ∈ policy.hosts.toList, trim host.1 ≠ "" ∧ isIpOrCidrStr host.2 = true
  acls : ∀ rule ∈ policy.acls, rule.action = "accept" ∧ ValidTargets rule.src rule.dst
  grants : ∀ grant ∈ policy.grants, ValidTargets grant.src grant.dst
  tagOwners : ∀ tag ∈ policy.tagOwners.toList,
    (startsWith "tag:" tag.1 && tag.1.toList.length ≠ "tag:".toList.length) = true ∧
      ∀ owner ∈ tag.2, isPrincipal owner = true
  approvers : ∀ table ∈ [policy.autoApprovers.routes, policy.autoApprovers.exitNode],
    ∀ entry ∈ table.toList,
      isIpOrCidrStr entry.1 = true ∧ ∀ approver ∈ entry.2, isPrincipal approver = true
  ssh : ∀ rule ∈ policy.ssh, (rule.action = "accept" ∨ rule.action = "check") ∧
    ValidTargets rule.src rule.dst ∧ ∀ user ∈ rule.users, trim user ≠ ""
  nodeAttrs : ∀ grant ∈ policy.nodeAttrs,
    (grant.target ≠ [] ∧ grant.attr ≠ []) ∧ ∀ target ∈ grant.target, isPrincipal target = true
  tests : ∀ test ∈ policy.tests, isPrincipal test.src = true
  sshTests : ∀ test ∈ policy.sshTests, (test.action = "accept" ∨ test.action = "check") ∧
    isPrincipal test.src = true ∧ isDst test.dst = true

section Sections

variable {source : String} {policy : Policy}

theorem validate_acls_ok : validateAcls source policy = .ok () ↔
    ∀ rule ∈ policy.acls, rule.action = "accept" ∧ ValidTargets rule.src rule.dst := by
  refine check_for_zip_idx fun rule i => ?_
  simp only [check_seq, require_ok, validate_targets_ok, decide_eq_true_eq]

theorem validate_grants_ok : validateGrants source policy = .ok () ↔
    ∀ grant ∈ policy.grants, ValidTargets grant.src grant.dst :=
  check_for_zip_idx fun _ _ => validate_targets_ok

theorem validate_ssh_ok : validateSsh source policy = .ok () ↔
    ∀ rule ∈ policy.ssh, (rule.action = "accept" ∨ rule.action = "check") ∧
      ValidTargets rule.src rule.dst ∧ ∀ user ∈ rule.users, trim user ≠ "" := by
  refine check_for_zip_idx fun rule i => ?_
  simp only [check_seq, require_ok, validate_targets_ok, require_all_ok, Bool.or_eq_true,
    decide_eq_true_eq]

theorem validate_node_attrs_ok : validateNodeAttrs source policy = .ok () ↔
    ∀ grant ∈ policy.nodeAttrs, (grant.target ≠ [] ∧ grant.attr ≠ []) ∧
      ∀ target ∈ grant.target, isPrincipal target = true := by
  refine check_for_zip_idx fun grant i => ?_
  simp only [check_seq, require_ok, require_all_ok, Bool.not_eq_true', Bool.or_eq_false_iff,
    List.isEmpty_eq_false_iff]

theorem validate_tests_ok : validateTests source policy = .ok () ↔
    ∀ test ∈ policy.tests, isPrincipal test.src = true :=
  check_for_zip_idx fun _ _ => require_ok

theorem validate_ssh_tests_ok : validateSshTests source policy = .ok () ↔
    ∀ test ∈ policy.sshTests, (test.action = "accept" ∨ test.action = "check") ∧
      isPrincipal test.src = true ∧ isDst test.dst = true := by
  refine check_for_zip_idx fun test i => ?_
  simp only [check_seq, require_ok, Bool.or_eq_true, Bool.and_eq_true, decide_eq_true_eq]

theorem validate_policy_ok : validatePolicy source policy = .ok () ↔ ValidPolicy policy := by
  simp only [validatePolicy, check_seq, validate_acls_ok, validate_grants_ok, validate_ssh_ok,
    validate_node_attrs_ok, validate_tests_ok, validate_ssh_tests_ok]
  simp only [validateGroups, validateHosts, validateTagOwners, validateApprovers, check_for,
    check_seq, require_ok, require_all_ok, decide_eq_true_eq]
  constructor
  · rintro ⟨hgroups, hhosts, hacls, hgrants, howners, hroutes, hexit, hssh, hattrs, htests,
      hsshTests⟩
    refine ⟨hgroups, hhosts, hacls, hgrants, howners, ?_, hssh, hattrs, htests, hsshTests⟩
    exact List.forall_mem_cons.mpr ⟨hroutes, List.forall_mem_singleton.mpr hexit⟩
  · intro h
    have happrovers := List.forall_mem_cons.mp h.approvers
    exact ⟨h.groups, h.hosts, h.acls, h.grants, h.tagOwners, happrovers.1,
      List.forall_mem_singleton.mp happrovers.2, h.ssh, h.nodeAttrs, h.tests, h.sshTests⟩

theorem accepted_iff : Accepted policy ↔ ValidPolicy policy := by
  simp [Accepted, validate_policy_ok]

end Sections

end Crabscale.Policy
