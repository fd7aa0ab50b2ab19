import Crabscale.Proto.Wire
import Crabscale.Rust.Str

/-!
# The access policy

The typed policy document and the tag ownership rules evaluated on it. Of the document's own test
sections only what its validator reads is kept.
-/

set_option linter.dupNamespace false

namespace Crabscale.Policy

open Rust Proto

/-- One network rule. -/
structure Acl where
  action : String
  src : List String
  dst : List String
  proto : Option String := none
  deriving DecidableEq

structure Grant where
  src : List String
  dst : List String
  ip : List String := []
  app : BTreeMap String JsonValue := ∅
  deriving DecidableEq

structure AutoApprovers where
  routes : BTreeMap String (List String) := ∅
  exitNode : BTreeMap String (List String) := ∅
  deriving DecidableEq

structure SshRule where
  action : String
  src : List String
  dst : List String
  users : List String := []
  checkPeriod : Option String := none
  deriving DecidableEq

structure NodeAttrGrant where
  target : List String
  attr : List String
  deriving DecidableEq

structure PolicyTest where
  src : String
  deriving DecidableEq

structure SshTest where
  action : String
  src : String
  dst : String
  deriving DecidableEq

structure Policy where
  groups : BTreeMap String (List String) := ∅
  hosts : BTreeMap String String := ∅
  acls : List Acl := []
  grants : List Grant := []
  tagOwners : BTreeMap String (List String) := ∅
  autoApprovers : AutoApprovers := {}
  ssh : List SshRule := []
  nodeAttrs : List NodeAttrGrant := []
  tests : List PolicyTest := []
  sshTests : List SshTest := []
  deriving DecidableEq

/-! ## Tag ownership -/

/-- Whether `tag` is `tag:` and a non-empty run of ASCII letters, digits and dashes. -/
def isValidTag (tag : String) : Bool :=
  match stripPrefix "tag:" tag with
  | none => false
  | some rest => rest ≠ "" && rest.toList.all fun c => isAsciiAlphanumeric c || c == '-'

/-- `Iterator::any` over a predicate that may fail to return: the first element that is true or
does not return decides. -/
def anyReturns {α : Type} (p : α → Option Bool) : List α → Option Bool
  | [] => some false
  | x :: xs =>
    match p x with
    | none => none
    | some true => some true
    | some false => anyReturns p xs

/-- Whether a `tagOwners` entry designates the user, with at most `depth` nested calls; `none`
when the recursion is still going at that depth. -/
def principalMatchesUserWithin (policy : Policy) (userLogin : String) :
    (depth : Nat) → (principal : String) → Option Bool
  | 0, _ => none
  | depth + 1, principal =>
    if principal = userLogin then some true
    else
      match stripPrefix "group:" principal with
      | none => some false
      | some group =>
        match policy.groups[group]? with
        | none => some false
        | some members =>
          anyReturns
            (fun m =>
              if m = principal then some false
              else principalMatchesUserWithin policy userLogin depth m)
            members

/-- Whether a `tagOwners` entry designates the user. Group references are followed without a
cycle check, so on mutually nested groups the source may recurse without end; the answer is then
`false` here. Without such a cycle a chain of calls visits each group once and then a login. -/
def principalMatchesUser (policy : Policy) (principal userLogin : String) : Bool :=
  (principalMatchesUserWithin policy userLogin (policy.groups.size + 2) principal).getD false

/-- Whether the user may approve `tag`. -/
def userCanUseTag (policy : Policy) (tag userLogin : String) : Bool :=
  if !isValidTag tag then false
  else
    match policy.tagOwners[tag]? with
    | none => false
    | some owners => owners.any fun owner => principalMatchesUser policy owner userLogin

def unauthorizedTags (policy : Policy) (userLogin : Option String) (requested : List String) :
    List String :=
  match userLogin with
  | none => requested
  | some login => requested.filter fun tag => !userCanUseTag policy tag login

theorem can_use_of_unauthorized_nil {policy : Policy} {userLogin : Option String}
    {requested : List String} (h : unauthorizedTags policy userLogin requested = []) {tag : String}
    (htag : tag ∈ requested) :
    ∃ login, userLogin = some login ∧ userCanUseTag policy tag login = true := by
  cases userLogin with
  | none =>
    change requested = [] at h
    rw [h] at htag
    cases htag
  | some login =>
    refine ⟨login, rfl, ?_⟩
    have hnot := List.filter_eq_nil_iff.mp h tag htag
    simpa using hnot

end Crabscale.Policy
