import Crabscale.Policy.Compile
import Mathlib.Data.List.TakeDrop

/-!
# The SSH rule compiler

Compilation of a policy's SSH rules into an ordered rule list per destination node, and the wire
policy sent to that node.
-/

namespace Crabscale.Policy

open Rust Proto

/-- The seconds for which an approval is remembered when a rule does not say. -/
def defaultSshCheckPeriod : Nat := 12 * 60 * 60

inductive SshRuleAction where
  | accept
  | check (checkPeriod : Nat)
  deriving DecidableEq

structure CompiledSshRule where
  src : List String
  srcNodes : BTreeSet Nat
  srcAll : Bool
  users : List String
  action : SshRuleAction
  deriving DecidableEq

/-- For every node the ordered rules that concern it. -/
structure CompiledSshPolicy where
  nodeRules : BTreeMap Nat (List CompiledSshRule) := ∅

/-- An addition or multiplication result that must fit in 64 bits. -/
def checkedU64 (n : Nat) : Option Nat := if n < 2 ^ 64 then some n else none

/-- The seconds of `amount` units. -/
def unitSeconds (amount : Nat) (c : Char) : Option Nat :=
  match c.toLower with
  | 's' => some amount
  | 'm' => checkedU64 (amount * 60)
  | 'h' => checkedU64 (amount * 3600)
  | 'd' => checkedU64 (amount * 86400)
  | _ => none

/-- The loop of `parse_ssh_duration`: the seconds so far and the digits since the last unit. -/
def parseSshDurationFrom : (input : List Char) → (total : Nat) → (number : List Char) → Option Nat
  | [], total, number => if number = [] then some total else none
  | c :: rest, total, number =>
    if isAsciiDigit c then parseSshDurationFrom rest total (number ++ [c])
    else do
      let amount ← parseUnsigned (2 ^ 64 - 1) (String.ofList number)
      let seconds ← unitSeconds amount c
      let total ← checkedU64 (total + seconds)
      parseSshDurationFrom rest total []

def parseSshDuration (input : String) : Option Nat :=
  if input = "" then none else parseSshDurationFrom input.toList 0 []

/-! ## Durations -/

def decimalValue (digits : List Char) : Nat :=
  digits.foldl (fun n c => n * 10 + (c.toNat - '0'.toNat)) 0

def unitScale (c : Char) : Nat :=
  match c.toLower with
  | 'm' => 60
  | 'h' => 3600
  | 'd' => 86400
  | _ => 1

/-- The text is a sequence of parts that add seconds to those from before. A part is a run of digits
and a unit in either case, and it is below 2^64 seconds, as is the sum with it. -/
inductive Duration : (sum : Nat) → List Char → (seconds : Nat) → Prop where
  | done {sum : Nat} : Duration sum [] sum
  | part {sum seconds : Nat} {digits rest : List Char} {c : Char} (hne : digits ≠ [])
      (hdigits : ∀ d ∈ digits, isAsciiDigit d = true) (hunit : c.toLower ∈ "smhd".toList)
      (hpart : decimalValue digits * unitScale c < 2 ^ 64)
      (hsum : sum + decimalValue digits * unitScale c < 2 ^ 64)
      (hrest : Duration (sum + decimalValue digits * unitScale c) rest seconds) :
      Duration sum (digits ++ c :: rest) seconds

theorem unit_not_digit {c : Char} (h : c.toLower ∈ "smhd".toList) : ¬isAsciiDigit c = true := by
  intro hdigit
  have hunits : ∀ unit ∈ "smhd".toList, isAsciiDigit unit = false := by
    simp [isAsciiDigit]
  have hlower : c.toLower = c := by
    rw [isAsciiDigit, Bool.and_eq_true, decide_eq_true_eq, decide_eq_true_eq] at hdigit
    exact dif_neg fun hupper => absurd (hupper.1.trans hdigit.2) (by decide)
  exact Bool.false_ne_true ((hunits _ (hlower ▸ h)).symm.trans hdigit)

section Digits

variable {digits : List Char} (hdigits : ∀ c ∈ digits, isAsciiDigit c = true)

include hdigits

theorem parse_unsigned_digits (hne : digits ≠ []) :
    parseUnsigned (2 ^ 64 - 1) (String.ofList digits) = checkedU64 (decimalValue digits) := by
  have hfold : ∀ n, digits.foldl (fun acc c => acc.bind fun n => (toDigit 10 c).map (n * 10 + ·))
      (some n) = some (digits.foldl (fun n c => n * 10 + (c.toNat - '0'.toNat)) n) := by
    clear hne
    induction digits with
    | nil => exact fun _ => rfl
    | cons c digits ih =>
      intro n
      have hdigit : toDigit 10 c = some (c.toNat - '0'.toNat) := by
        have hc := hdigits c List.mem_cons_self
        unfold isAsciiDigit at hc
        rw [toDigit, if_pos hc, Option.filter_eq_some_iff]
        rw [Bool.and_eq_true, decide_eq_true_eq, decide_eq_true_eq] at hc
        have hle : c.toNat ≤ '9'.toNat := hc.2
        have hbounds : '9'.toNat = 57 ∧ '0'.toNat = 48 := by decide
        exact ⟨rfl, decide_eq_true (by omega)⟩
      rw [List.foldl_cons, List.foldl_cons, Option.bind_some, hdigit]
      exact ih (fun c hc => hdigits c (List.mem_cons_of_mem _ hc)) _
  rw [parseUnsigned, String.toList_ofList]
  split
  case h_1 rest => exact absurd (hdigits '+' List.mem_cons_self) (by decide)
  case h_2 =>
    have hparse : parseDigits digits = some (decimalValue digits) := by
      cases digits with
      | nil => exact absurd rfl hne
      | cons c digits => exact hfold 0
    rw [hparse, checkedU64, Option.filter_some]
    exact ite_congr (by simp; omega) (fun _ => rfl) fun _ => rfl

/-- The digits end at the first character that is none. -/
theorem span_digits {c : Char} (hc : ¬isAsciiDigit c = true) (rest : List Char) :
    (digits ++ c :: rest).span isAsciiDigit = (digits, c :: rest) := by
  rw [List.span_eq_takeWhile_dropWhile, List.takeWhile_append_of_pos hdigits,
    List.dropWhile_append_of_pos hdigits, List.takeWhile_cons_of_neg hc,
    List.dropWhile_cons_of_neg hc, List.append_nil]

end Digits

theorem unit_seconds_eq_some {amount seconds : Nat} {c : Char} (hamount : amount < 2 ^ 64) :
    unitSeconds amount c = some seconds ↔ c.toLower ∈ "smhd".toList ∧
      amount * unitScale c < 2 ^ 64 ∧ amount * unitScale c = seconds := by
  unfold unitSeconds unitScale checkedU64
  split <;> rename_i hunit
  case h_1 => simpa [hunit] using fun _ => hamount
  case h_5 => simp_all
  all_goals simp [hunit]

/-- The loop reads a duration from the digits that it has and the rest of the text. -/
theorem parse_ssh_duration_from_iff {input number : List Char} {sum seconds : Nat}
    (hnumber : ∀ c ∈ number, isAsciiDigit c = true) :
    parseSshDurationFrom input sum number = some seconds ↔
      Duration sum (number ++ input) seconds := by
  induction input generalizing sum number with
  | nil =>
    rw [parseSshDurationFrom, List.append_nil, Option.ite_none_right_eq_some, Option.some.injEq]
    constructor
    · rintro ⟨rfl, rfl⟩
      exact .done
    · intro h
      cases h with
      | done => exact ⟨rfl, rfl⟩
      | part _ _ hunit _ _ _ => exact absurd (hnumber _ (by simp)) (unit_not_digit hunit)
  | cons c rest ih =>
    rw [parseSshDurationFrom]
    split
    case isTrue hdigit =>
      have hnext : ∀ d ∈ number ++ [c], isAsciiDigit d = true :=
        List.forall_mem_append.mpr ⟨hnumber, List.forall_mem_singleton.mpr hdigit⟩
      rw [ih hnext, List.append_assoc, List.singleton_append]
    case isFalse hother =>
    have hrest (sum : Nat) : parseSshDurationFrom rest sum [] = some seconds ↔
        Duration sum rest seconds := ih fun _ h => absurd h List.not_mem_nil
    simp only [Option.bind_eq_bind, Option.bind_eq_some_iff, hrest]
    constructor
    · rintro ⟨amount, hamount, added, hadded, total, htotal, hduration⟩
      have hne : number ≠ [] := by
        rintro rfl
        cases hamount
      rw [parse_unsigned_digits hnumber hne, checkedU64, Option.ite_none_right_eq_some] at hamount
      obtain ⟨hlt, ⟨⟩⟩ := hamount
      obtain ⟨hunit, hpart, rfl⟩ := (unit_seconds_eq_some hlt).mp hadded
      rw [checkedU64, Option.ite_none_right_eq_some] at htotal
      obtain ⟨hsum, ⟨⟩⟩ := htotal
      exact .part hne hnumber hunit hpart hsum hduration
    · intro h
      generalize htext : number ++ c :: rest = text at h
      cases h with
      | done => simp at htext
      | part hne hdigits hunit hpart hsum hduration =>
        have hspan := congrArg (List.span isAsciiDigit) htext
        rw [span_digits hnumber hother, span_digits hdigits (unit_not_digit hunit)] at hspan
        cases hspan
        have hscale : 1 ≤ unitScale c := by
          unfold unitScale
          split <;> decide
        have hvalue := (Nat.le_mul_of_pos_right _ hscale).trans_lt hpart
        exact ⟨_, (parse_unsigned_digits hdigits hne).trans (if_pos hvalue), _,
          (unit_seconds_eq_some hvalue).mpr ⟨hunit, hpart, rfl⟩, _, if_pos hsum, hduration⟩

/-- A text that is not empty is read as the seconds of the duration that it is. -/
theorem parse_ssh_duration_iff (input : String) (seconds : Nat) :
    parseSshDuration input = some seconds ↔ input ≠ "" ∧ Duration 0 input.toList seconds := by
  rw [parseSshDuration, Option.ite_none_left_eq_some,
    parse_ssh_duration_from_iff fun _ h => absurd h List.not_mem_nil, List.nil_append]

def compileSshRule (policy : Policy) (nodes : List CompileNode)
    (nodeRules : BTreeMap Nat (List CompiledSshRule)) (rule : SshRule) :
    BTreeMap Nat (List CompiledSshRule) :=
  let src := resolve policy rule.src
  let dst := resolve policy rule.dst
  let compiledRule : CompiledSshRule :=
    { src := rule.src
      srcNodes := (nodes.filter src.matchesNode).foldl (fun ids node => ids.insert node.id) ∅
      srcAll := src.wildcard || src.selfMatch
      users := rule.users
      action :=
        if rule.action = "accept" then .accept
        else .check ((rule.checkPeriod.bind parseSshDuration).getD defaultSshCheckPeriod) }
  (nodes.filter dst.matchesNode).foldl
    (fun nodeRules node => pushEntry nodeRules node.id compiledRule) nodeRules

def compileSshPolicy (policy : Policy) (nodes : List CompileNode) : CompiledSshPolicy :=
  let empty : BTreeMap Nat (List CompiledSshRule) :=
    nodes.foldl (fun nodeRules node => touchEntry nodeRules node.id) ∅
  { nodeRules := policy.ssh.foldl (compileSshRule policy nodes) empty }

def firstMatchingSshRule (policy : CompiledSshPolicy) (srcId dstId : Nat) (sshUser : String) :
    Option CompiledSshRule := do
  let rules ← policy.nodeRules[dstId]?
  rules.find? fun rule =>
    (rule.srcAll || rule.srcNodes.contains srcId) &&
      (rule.users.isEmpty || rule.users.any fun user => user == sshUser || user == "*")

/-- The principals for the logins written in a rule, after those in `principals`. -/
def loginPrincipals (selectors : List String) (principals : List SshPrincipal) :
    List SshPrincipal :=
  selectors.foldl (fun principals selector =>
    if selector.toList.contains '@' && !principals.any fun p => p.userLogin == selector then
      principals ++ [{ userLogin := selector }]
    else principals) principals

def nodePrincipals (ids : List Nat) (nodes : List CompileNode) : List SshPrincipal :=
  ids.foldl (fun principals id =>
    match nodes.find? fun n => n.id == id with
    | none => principals
    | some node =>
      if node.stableId ≠ "" && !principals.any fun p => p.node == node.stableId then
        principals ++ [{ node := node.stableId }]
      else principals) []

def rolePrincipals (rule : CompiledSshRule) (nodes : List CompileNode) : List SshPrincipal :=
  if rule.srcAll then loginPrincipals rule.src [{ any := true }]
  else loginPrincipals rule.src (nodePrincipals rule.srcNodes.toList nodes)

def wireSshAction (serverUrl : String) : SshRuleAction → SshAction
  | .accept =>
    { message := "SSH connection accepted", accept := true, allowAgentForwarding := true
      allowLocalPortForwarding := true, allowRemotePortForwarding := true }
  | .check _ =>
    { message := "approval required"
      holdAndDelegate := serverUrl ++ "/machine/ssh/action/$SRC_NODE_ID/to/$DST_NODE_ID" ++
        "?ssh_user=$SSH_USER&local_user=$LOCAL_USER"
      allowAgentForwarding := true
      allowLocalPortForwarding := true
      allowRemotePortForwarding := true }

/-- The wire SSH policy of a node; `none` when no rule concerns it. -/
def buildWireSshPolicy (compiled : CompiledSshPolicy) (dstId : Nat) (serverUrl : String)
    (nodes : List CompileNode) : Option SshPolicy := do
  let rules ← compiled.nodeRules[dstId]?
  if rules = [] then none
  else
    some
      { rules := rules.map fun rule =>
          { principals := rolePrincipals rule nodes
            sshUsers := rule.users.foldl (fun users user => users.insert user "=") ∅
            action := some (wireSshAction serverUrl rule.action) } }

end Crabscale.Policy
