import Crabscale.Policy.Validate
import Crabscale.Policy.Groups

/-!
# The search for the owners of a tag

Whether a user may use a tag is decided by following the groups that own it. The search remembers no
path, except that it does not enter a group from itself. So it ends for every user if and only if no
groups are nested in a circle: `tag_authorization_terminates_iff`.
-/

namespace Crabscale.Policy

open Rust

/-- Whether the user may approve `tag`, with at most `depth` nested calls for each owner; `none`
when the recursion is still going at that depth. -/
def userCanUseTagWithin (policy : Policy) (userLogin : String) (depth : Nat) (tag : String) :
    Option Bool :=
  if !isValidTag tag then some false
  else
    match policy.tagOwners[tag]? with
    | none => some false
    | some owners => anyReturns (principalMatchesUserWithin policy userLogin depth) owners

def Returns (search : Nat → Option Bool) : Prop := ∃ depth answer, search depth = some answer

/-- The search enters the group `inner` from the group `outer`. -/
def Enters (policy : Policy) (outer inner : String) : Prop :=
  NestedIn policy outer inner ∧ inner ≠ outer

def NoCircle (policy : Policy) : Prop := ∀ group, ¬Relation.TransGen (Enters policy) group group

section Any

variable {α : Type} {p : α → Option Bool} {xs : List α}

theorem any_returns_some (h : ∀ x ∈ xs, (p x).isSome = true) :
    anyReturns p xs = some (xs.any fun x => (p x).getD false) := by
  induction xs with
  | nil => rfl
  | cons x xs ih =>
    obtain ⟨answer, hanswer⟩ := Option.isSome_iff_exists.mp (h x List.mem_cons_self)
    have hrest := ih fun y hy => h y (List.mem_cons_of_mem x hy)
    rw [anyReturns, List.any_cons, hanswer]
    cases answer with
    | true => rfl
    | false => exact hrest

theorem any_returns_none (hfalse : ∀ x ∈ xs, p x ≠ some true) {x : α} (hx : x ∈ xs)
    (hnone : p x = none) : anyReturns p xs = none := by
  induction xs with
  | nil => cases hx
  | cons y ys ih =>
    rw [anyReturns]
    cases hy : p y with
    | none => rfl
    | some answer =>
      have hanswer : answer = false := by
        have := hfalse y List.mem_cons_self
        rw [hy] at this
        simpa using this
      subst hanswer
      obtain rfl | hx := List.mem_cons.mp hx
      · cases hnone.symm.trans hy
      · exact ih (fun z hz => hfalse z (List.mem_cons_of_mem y hz)) hx

theorem any_returns_ne_true (hfalse : ∀ x ∈ xs, p x ≠ some true) : anyReturns p xs ≠ some true := by
  induction xs with
  | nil => simp [anyReturns]
  | cons y ys ih =>
    rw [anyReturns]
    have hy := hfalse y List.mem_cons_self
    have hrest := ih fun z hz => hfalse z (List.mem_cons_of_mem y hz)
    cases hanswer : p y with
    | none => simp
    | some answer =>
      cases answer with
      | true => exact absurd hanswer hy
      | false => exact hrest

end Any

section Search

variable {policy : Policy} {userLogin group : String} {depth : Nat}

theorem within_plain {principal : String} (hplain : stripPrefix "group:" principal = none) :
    principalMatchesUserWithin policy userLogin (depth + 1) principal =
      some (decide (principal = userLogin)) := by
  rw [principalMatchesUserWithin, hplain]
  by_cases heq : principal = userLogin
  · simp [heq]
  · simp [heq]

theorem within_group (hlogin : "group:" ++ group ≠ userLogin) :
    principalMatchesUserWithin policy userLogin (depth + 1) ("group:" ++ group) =
      anyReturns (fun member => if member = "group:" ++ group then some false
        else principalMatchesUserWithin policy userLogin depth member)
        (groupMembers policy group) := by
  rw [principalMatchesUserWithin, if_neg hlogin, strip_prefix_eq_some.mpr rfl, groupMembers]
  dsimp only
  cases policy.groups[group]? <;> rfl

/-! ## Without a circle -/

/-- The search from a group returns when the depth exceeds the number of groups that are not on the
path, and those on the path lead to the group. -/
theorem within_returns (hcircle : NoCircle policy) {path : BTreeSet String}
    (hpath : ∀ outer ∈ path, Relation.TransGen (Enters policy) outer group)
    (hdepth : openable policy path < depth) :
    (principalMatchesUserWithin policy userLogin depth ("group:" ++ group)).isSome = true := by
  -- The induction is on the depth; each step puts one more group on the path.
  induction depth generalizing path group with
  | zero => omega
  | succ depth ih =>
    by_cases hlogin : "group:" ++ group = userLogin
    · rw [principalMatchesUserWithin, if_pos hlogin]
      rfl
    rw [within_group hlogin, any_returns_some]
    · rfl
    intro member hmember
    split
    · rfl
    case isFalse hother =>
    have hnew : path.contains group = false := by
      refine Bool.eq_false_of_not_eq_true fun hold => hcircle group (hpath group ?_)
      exact Std.ExtTreeSet.contains_iff_mem.mp hold
    have hlt := openable_insert_lt (group_of_member hmember) hnew
    cases hnested : stripPrefix "group:" member with
    | none =>
      obtain ⟨rest, rfl⟩ : ∃ rest, depth = rest + 1 := ⟨depth - 1, by omega⟩
      rw [within_plain hnested]
      rfl
    | some inner =>
      obtain rfl := strip_prefix_eq_some.mp hnested
      have henters : Enters policy group inner :=
        ⟨⟨_, hmember, hnested⟩, fun heq => hother (by rw [heq])⟩
      have hinner : ∀ outer ∈ path.insert group,
          Relation.TransGen (Enters policy) outer inner := by
        intro outer houter
        rw [Std.ExtTreeSet.mem_insert, Std.LawfulEqOrd.compare_eq_iff_eq] at houter
        obtain rfl | houter := houter
        · exact .single henters
        · exact (hpath outer houter).tail henters
      exact ih hinner (by omega)

/-- Without a circle the depth that `principalMatchesUser` allows is enough. -/
theorem principal_returns (hcircle : NoCircle policy) (principal : String) :
    principalMatchesUserWithin policy userLogin (policy.groups.size + 2) principal =
      some (principalMatchesUser policy principal userLogin) := by
  have hsome : (principalMatchesUserWithin policy userLogin (policy.groups.size + 2)
      principal).isSome = true := by
    cases hnested : stripPrefix "group:" principal with
    | none =>
      rw [within_plain hnested]
      rfl
    | some group =>
      obtain rfl := strip_prefix_eq_some.mp hnested
      have hopenable : openable policy ∅ ≤ policy.groups.size := openable_empty_le
      have hpath : ∀ outer ∈ (∅ : BTreeSet String),
          Relation.TransGen (Enters policy) outer group :=
        fun outer houter => absurd houter Std.ExtTreeSet.not_mem_empty
      exact within_returns hcircle hpath (by omega)
  obtain ⟨answer, hanswer⟩ := Option.isSome_iff_exists.mp hsome
  rw [principalMatchesUser, hanswer]
  rfl

theorem tag_returns (hcircle : NoCircle policy) (tag : String) :
    userCanUseTagWithin policy userLogin (policy.groups.size + 2) tag =
      some (userCanUseTag policy tag userLogin) := by
  unfold userCanUseTagWithin userCanUseTag
  split
  · rfl
  · cases policy.tagOwners[tag]? with
    | none => rfl
    | some owners =>
      dsimp only
      rw [any_returns_some fun owner _ => by rw [principal_returns hcircle]; rfl]
      simp only [principal_returns hcircle, Option.getD_some]

/-! ## With a circle -/

theorem within_ne_true (hlogin : ∀ group, userLogin ∉ groupMembers policy group)
    {principal : String} (hother : principal ≠ userLogin) :
    principalMatchesUserWithin policy userLogin depth principal ≠ some true := by
  induction depth generalizing principal with
  | zero => simp [principalMatchesUserWithin]
  | succ depth ih =>
    cases hnested : stripPrefix "group:" principal with
    | none =>
      rw [within_plain hnested]
      simp [hother]
    | some group =>
      obtain rfl := strip_prefix_eq_some.mp hnested
      rw [within_group hother]
      refine any_returns_ne_true fun member hmember => ?_
      split
      · simp
      · refine ih fun heq => hlogin group ?_
        rw [← heq]
        exact hmember

theorem within_circle (hlogin : ∀ group, userLogin ∉ groupMembers policy group)
    (hgroups : ∀ group, "group:" ++ group ≠ userLogin)
    (hcircle : Relation.TransGen (Enters policy) group group) :
    principalMatchesUserWithin policy userLogin depth ("group:" ++ group) = none := by
  induction depth generalizing group with
  | zero => rfl
  | succ depth ih =>
    obtain ⟨inner, henters, hback⟩ := Relation.TransGen.head'_iff.mp hcircle
    obtain ⟨⟨member, hmember, hnested⟩, hother⟩ := henters
    obtain rfl := strip_prefix_eq_some.mp hnested
    have hentered : ("group:" ++ inner) ≠ "group:" ++ group := by
      simpa using hother
    rw [within_group (hgroups group)]
    refine any_returns_none (fun member hmember => ?_) hmember ?_
    · split
      · simp
      · refine within_ne_true hlogin fun heq => hlogin group ?_
        rw [← heq]
        exact hmember
    · rw [if_neg hentered]
      refine ih ?_
      exact Relation.TransGen.tail'_iff.mpr ⟨group, hback, ⟨_, hmember, hnested⟩, hother⟩

end Search

/-- For an accepted policy, the search for every principal and every tag returns for every login if
and only if no groups are nested in each other in a circle. -/
theorem tag_authorization_terminates_iff (policy : Policy) (haccepted : Accepted policy) :
    ((∀ principal login, Returns fun depth =>
        principalMatchesUserWithin policy login depth principal) ∧
      ∀ tag login, Returns fun depth => userCanUseTagWithin policy login depth tag) ↔
      NoCircle policy := by
  constructor
  · rintro ⟨hprincipals, -⟩ group hcircle
    -- No member of a group is empty, so an empty login is not found.
    have hempty (group : String) : "" ∉ groupMembers policy group := by
      intro hmember
      cases hmembers : policy.groups[group]? with
      | none => simp [groupMembers, hmembers] at hmember
      | some members =>
        rw [groupMembers, hmembers] at hmember
        have hprincipal := ((accepted_iff.mp haccepted).groups (group, members)
          (Std.ExtTreeMap.mem_toList_iff_getElem?_eq_some.mpr hmembers)).2 "" hmember
        exact absurd hprincipal (by decide)
    obtain ⟨depth, answer, hanswer⟩ := hprincipals ("group:" ++ group) ""
    exact absurd (hanswer.symm.trans (within_circle hempty (by simp) hcircle)) (by simp)
  · intro hcircle
    exact ⟨fun principal login => ⟨_, _, principal_returns hcircle principal⟩,
      fun tag login => ⟨_, _, tag_returns hcircle tag⟩⟩

def ownedTag : Policy where
  groups := BTreeMap.from [("ops", ["group:ops", "alice@example.com"])]
  tagOwners := BTreeMap.from [("tag:web", ["group:ops"])]

/-- A group that is a member of itself does not keep the search from its end. -/
theorem tag_authorization_terminates_owned :
    Accepted ownedTag ∧ ∀ tag login, Returns fun depth =>
      userCanUseTagWithin ownedTag login depth tag := by
  have haccepted : Accepted ownedTag := ⟨"", by decide +kernel⟩
  refine ⟨haccepted, ((tag_authorization_terminates_iff ownedTag haccepted).mpr
    fun group hcircle => ?_).2⟩
  obtain ⟨inner, ⟨⟨member, hmember, hnested⟩, hother⟩, -⟩ := Relation.TransGen.head'_iff.mp hcircle
  by_cases hops : group = "ops"
  · subst hops
    have hmembers : groupMembers ownedTag "ops" = ["group:ops", "alice@example.com"] := by
      decide +kernel
    rw [hmembers] at hmember
    obtain rfl | hmember := List.mem_cons.mp hmember
    · have hself : stripPrefix "group:" "group:ops" = some "ops" := by decide +kernel
      exact hother (Option.some.inj (hnested.symm.trans hself))
    · have hnone : stripPrefix "group:" "alice@example.com" = none := by decide +kernel
      rw [List.mem_singleton.mp hmember, hnone] at hnested
      cases hnested
  · have hmembers : groupMembers ownedTag group = [] := by
      simp [groupMembers, ownedTag, BTreeMap.from, Ne.symm hops]
    rw [hmembers] at hmember
    cases hmember

def circularTag : Policy where
  groups := BTreeMap.from [("dev", ["group:ops"]), ("ops", ["group:dev"])]
  tagOwners := BTreeMap.from [("tag:web", ["group:ops"])]

/-- The policy is accepted, and the search for the owners of its tag does not end. -/
theorem tag_authorization_endless :
    Accepted circularTag ∧ ∀ depth,
      userCanUseTagWithin circularTag "alice@example.com" depth "tag:web" = none := by
  refine ⟨⟨"", by decide +kernel⟩, fun depth => ?_⟩
  have hdev : groupMembers circularTag "dev" = ["group:ops"] := by decide +kernel
  have hops : groupMembers circularTag "ops" = ["group:dev"] := by decide +kernel
  have hsearch (depth : Nat) :
      principalMatchesUserWithin circularTag "alice@example.com" depth "group:dev" = none ∧
      principalMatchesUserWithin circularTag "alice@example.com" depth "group:ops" = none := by
    induction depth with
    | zero => exact ⟨rfl, rfl⟩
    | succ depth ih =>
      constructor
      · show principalMatchesUserWithin _ _ _ ("group:" ++ "dev") = none
        rw [within_group (by decide), hdev, anyReturns, if_neg (by decide), ih.2]
      · show principalMatchesUserWithin _ _ _ ("group:" ++ "ops") = none
        rw [within_group (by decide), hops, anyReturns, if_neg (by decide), ih.1]
  have hvalid : isValidTag "tag:web" = true := by decide +kernel
  have howners : circularTag.tagOwners["tag:web"]? = some ["group:ops"] := by decide +kernel
  rw [userCanUseTagWithin, hvalid, howners]
  show anyReturns _ ["group:ops"] = none
  rw [anyReturns, (hsearch depth).2]

/-! ## Delegation to tags

`tag_owned_by_tags` follows the tags among the owners of a tag. It visits each tag once, so it ends
for every policy: `tag_owned_by_tags_iff`. -/

section Delegation

variable (policy : Policy) (ownerTags : List String)

abbrev Walk := BTreeSet String → Option (Bool × BTreeSet String)

/-- The loop over the owners of a tag; `walk` follows an owner that is a tag. -/
def walkOwners (walk : String → Walk) : List String → Walk
  | [], visited => some (false, visited)
  | owner :: owners, visited =>
    if owner ∈ ownerTags then some (true, visited)
    else if startsWith "tag:" owner then
      match walk owner visited with
      | some (false, visited) => walkOwners walk owners visited
      | result => result
    else walkOwners walk owners visited

def walk : Nat → String → Walk
  | 0, _, _ => none
  | depth + 1, tag, visited =>
    if visited.contains tag then some (false, visited)
    else
      match policy.tagOwners[tag]? with
      | none => some (false, visited.insert tag)
      | some owners => walkOwners ownerTags (walk depth) owners (visited.insert tag)

/-- Whether a holder of `ownerTags` may approve `tag`, with at most `depth` nested calls of `walk`;
`none` when the recursion is still going at that depth. -/
def tagOwnedByTagsWithin (depth : Nat) (tag : String) : Option Bool :=
  if tag ∈ ownerTags then some true
  else if !isValidTag tag then some false
  else (walk policy ownerTags depth tag ∅).map Prod.fst

def ownersOf (tag : String) : List String := (policy.tagOwners[tag]?).getD []

def Delegates (tag owner : String) : Prop :=
  owner ∈ ownersOf policy tag ∧ startsWith "tag:" owner = true

/-- An owner of `tag`, or of a tag to which it leads, is one of `ownerTags`. -/
def Delegated (tag : String) : Prop :=
  ∃ reached, Relation.ReflTransGen (Delegates policy) tag reached ∧
    ∃ owner ∈ ownersOf policy reached, owner ∈ ownerTags

/-- No owner in the list is one of `ownerTags`, and those that are tags were visited. -/
def Settled (visited : BTreeSet String) (owners : List String) : Prop :=
  ∀ owner ∈ owners, owner ∉ ownerTags ∧ (startsWith "tag:" owner = true → owner ∈ visited)

/-- The walk came from `visited` to `after`, and the owners of the tags on its way are settled. -/
structure Visits (visited after : BTreeSet String) : Prop where
  kept : ∀ tag ∈ visited, tag ∈ after
  settled : ∀ tag ∈ after, tag ∉ visited → Settled ownerTags after (ownersOf policy tag)

/-- A part of the walk from `tag` ends, with a hit or with what it visited. -/
def Walked (tag : String) (visited : BTreeSet String) (seen : BTreeSet String → Prop)
    (result : Option (Bool × BTreeSet String)) : Prop :=
  (∃ after, result = some (true, after) ∧ Delegated policy ownerTags tag) ∨
    ∃ after, result = some (false, after) ∧ Visits policy ownerTags visited after ∧ seen after

variable {policy ownerTags} {visited after : BTreeSet String} {tag : String}

theorem Visits.refl : Visits policy ownerTags visited visited :=
  ⟨fun _ hold => hold, fun _ hold hnew => absurd hold hnew⟩

theorem Visits.trans {last : BTreeSet String} (h : Visits policy ownerTags visited after)
    (hlast : Visits policy ownerTags after last) : Visits policy ownerTags visited last := by
  refine ⟨fun tag htag => hlast.kept tag (h.kept tag htag), fun tag htag hnew => ?_⟩
  by_cases hafter : tag ∈ after
  · exact fun owner howner => (h.settled tag hafter hnew owner howner).imp_right
      fun hseen hprefix => hlast.kept owner (hseen hprefix)
  · exact hlast.settled tag htag hafter

theorem Visits.leave (h : Visits policy ownerTags (visited.insert tag) after)
    (hsettled : Settled ownerTags after (ownersOf policy tag)) :
    Visits policy ownerTags visited after := by
  refine ⟨fun other hother => h.kept other (Std.ExtTreeSet.mem_insert.mpr (.inr hother)),
    fun other hother hnew => ?_⟩
  by_cases hsame : tag = other
  · exact hsame ▸ hsettled
  · exact h.settled other hother (by simp [hsame, hnew])

theorem walk_owners_spec {walk : String → Walk} {owners : List String}
    (howners : ∀ owner ∈ owners, owner ∈ ownersOf policy tag)
    (hwalk : ∀ owner later, (∀ tag ∈ visited, tag ∈ later) →
      Walked policy ownerTags owner later (owner ∈ ·) (walk owner later)) :
    Walked policy ownerTags tag visited (Settled ownerTags · owners)
      (walkOwners ownerTags walk owners visited) := by
  induction owners generalizing visited with
  | nil => exact .inr ⟨visited, rfl, .refl, fun _ hnil => absurd hnil List.not_mem_nil⟩
  | cons owner owners ih =>
    obtain ⟨hof, howners⟩ := List.forall_mem_cons.mp howners
    rw [walkOwners]
    split
    case isTrue howner => exact .inl ⟨visited, rfl, tag, .refl, owner, hof, howner⟩
    case isFalse howner =>
    -- The loop goes on when the owner leads to none of the tags.
    have hrest {after : BTreeSet String} (h : Visits policy ownerTags visited after)
        (hseen : startsWith "tag:" owner = true → owner ∈ after) :
        Walked policy ownerTags tag visited (Settled ownerTags · (owner :: owners))
          (walkOwners ownerTags walk owners after) := by
      refine (ih howners fun owner later hkept => hwalk owner later fun tag htag =>
        hkept tag (h.kept tag htag)).imp_right ?_
      rintro ⟨last, hresult, hlast, hothers⟩
      exact ⟨last, hresult, h.trans hlast, List.forall_mem_cons.mpr
        ⟨⟨howner, fun htag => hlast.kept owner (hseen htag)⟩, hothers⟩⟩
    split
    case isFalse hplain => exact hrest .refl fun htag => absurd htag hplain
    case isTrue htag =>
    obtain ⟨after, hresult, reached, hreached, howned⟩ | ⟨after, hresult, hafter, hseen⟩ :=
      hwalk owner visited fun _ htag => htag
    · rw [hresult]
      exact .inl ⟨after, rfl, reached, .head ⟨hof, htag⟩ hreached, howned⟩
    · rw [hresult]
      exact hrest hafter fun _ => hseen

/-- The walk ends when the depth exceeds the number of tags with owners that it did not visit. -/
theorem walk_spec (ownerTags : List String) (tag : String) (visited : BTreeSet String) {depth : Nat}
    (hdepth : (policy.tagOwners.keys.filter fun key => !visited.contains key).length < depth) :
    Walked policy ownerTags tag visited (tag ∈ ·) (walk policy ownerTags depth tag visited) := by
  induction depth generalizing tag visited with
  | zero => exact absurd hdepth (Nat.not_lt_zero _)
  | succ depth ih =>
    rw [walk]
    split
    case isTrue hold => exact .inr ⟨visited, rfl, .refl, hold⟩
    case isFalse hnew =>
    have hself : tag ∈ visited.insert tag := Std.ExtTreeSet.mem_insert_self
    cases howners : policy.tagOwners[tag]? with
    | none =>
      exact .inr ⟨_, rfl, Visits.refl.leave (by simp [ownersOf, howners, Settled]), hself⟩
    | some owners =>
      have hof : ownersOf policy tag = owners := by rw [ownersOf, howners, Option.getD_some]
      have hkey : tag ∈ policy.tagOwners.keys := by
        simp [Std.ExtTreeMap.mem_iff_isSome_getElem?, howners]
      refine (walk_owners_spec (fun _ howner => hof ▸ howner)
        fun owner later hkept => ih owner later ?_).imp_right ?_
      · have hlt := length_unseen_lt hkey hnew (fun other hother =>
          hkept other (Std.ExtTreeSet.mem_insert.mpr (.inr hother))) (hkept tag hself)
        omega
      · rintro ⟨after, hresult, hafter, hsettled⟩
        exact ⟨after, hresult, hafter.leave (hof ▸ hsettled), hafter.kept tag hself⟩

end Delegation

/-- For every policy the search ends, and it finds that `tag` is one of the tags, or a valid tag
that leads to a tag with an owner among them. -/
theorem tag_owned_by_tags_iff (policy : Policy) (ownerTags : List String) (tag : String) :
    ∃ answer, (∀ depth > policy.tagOwners.size,
        tagOwnedByTagsWithin policy ownerTags depth tag = some answer) ∧
      (answer = true ↔ tag ∈ ownerTags ∨
        isValidTag tag = true ∧ Delegated policy ownerTags tag) := by
  classical
  refine ⟨decide _, fun depth hdepth => ?_, decide_eq_true_iff⟩
  rw [gt_iff_lt, ← Std.ExtTreeMap.length_keys] at hdepth
  unfold tagOwnedByTagsWithin
  split
  case isTrue howned => simp [howned]
  case isFalse hother =>
  split
  case isTrue hinvalid => simp_all
  case isFalse hvalid =>
  obtain ⟨after, hresult, hit⟩ | ⟨after, hresult, hafter, htag⟩ :=
    walk_spec ownerTags tag ∅ ((List.length_filter_le _ _).trans_lt hdepth)
  · simp_all
  · have hsettled (tag : String) (hvisited : tag ∈ after) :=
      hafter.settled tag hvisited Std.ExtTreeSet.not_mem_empty
    have hmiss : ¬Delegated policy ownerTags tag := by
      rintro ⟨reached, hpath, owner, howner, hit⟩
      have hreached : reached ∈ after := by
        clear howner
        induction hpath with
        | refl => exact htag
        | tail _ hstep ih => exact (hsettled _ ih _ hstep.1).2 hstep.2
      exact (hsettled reached hreached owner howner).1 hit
    simp_all

end Crabscale.Policy
