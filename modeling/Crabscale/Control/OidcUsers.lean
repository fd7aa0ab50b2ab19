import Crabscale.Control.StableIds

/-!
# Users of an identity provider

`upsert_oidc_user` finds the user of a profile by the email and records the subject as a login that
is never read back: by `oidc_subject_one_user_iff` a subject keeps its user just as long as it keeps
its email.
-/

namespace Crabscale.Control

open Rust Proto Interaction Interaction.Program

/-! ## Accounts -/

/-- The id and the login name of every user. -/
def Db.accounts (db : Db) : List (Nat × String) :=
  db.users.map fun user => (user.id, user.loginName)

theorem Db.mem_accounts {db : Db} {id : Nat} {loginName : String} :
    (id, loginName) ∈ db.accounts ↔
      ∃ user ∈ db.users, user.id = id ∧ user.loginName = loginName := by
  simp [Db.accounts]

theorem Db.account_eq_iff {db : Db} {id id' : Nat} {loginName loginName' : String}
    (h : (id, loginName) ∈ db.accounts) (h' : (id', loginName') ∈ db.accounts) :
    id = id' ↔ loginName = loginName' := by
  obtain ⟨user, huser, rfl, rfl⟩ := Db.mem_accounts.mp h
  obtain ⟨user', huser', rfl, rfl⟩ := Db.mem_accounts.mp h'
  constructor
  · intro hid
    rw [List.inj_on_of_nodup_map db.valid.userIds huser huser' hid]
  · intro hname
    rw [List.inj_on_of_nodup_map db.valid.userNames huser huser' hname]

theorem Db.rename_user {db : Db} {user : User} (huser : user ∈ db.users) (displayName : String) :
    ∃ db', db.updateUserDisplayName user.id displayName = (.ok (), db') ∧
      db'.accounts = db.accounts := by
  let rename (other : User) : User :=
    if other.id = user.id then { other with displayName } else other
  have hkeeps {α : Type} (column : User → α)
    (hcolumn : ∀ other, column (rename other) = column other) :
      (db.users.map rename).map column = db.users.map column := by
    rw [List.map_map]
    exact List.map_congr_left fun other _ => hcolumn other
  have hid (other : User) : (rename other).id = other.id := by
    show (if _ then _ else _ : User).id = _
    split <;> rfl
  have hname (other : User) : (rename other).loginName = other.loginName := by
    show (if _ then _ else _ : User).loginName = _
    split <;> rfl
  have hids := hkeeps User.id hid
  have hvalid : Tables.Valid { db.toTables with users := db.users.map rename } :=
    { db.valid with
      userIds := hids ▸ db.valid.userIds
      userIdsPos := fun other hother => by
        obtain ⟨before, hbefore, rfl⟩ := List.mem_map.mp hother
        exact hid before ▸ db.valid.userIdsPos before hbefore
      userNames := hkeeps User.loginName hname ▸ db.valid.userNames
      loginUsers := hids ▸ db.valid.loginUsers
      nodeUsers := hids ▸ db.valid.nodeUsers
      keyUsers := hids ▸ db.valid.keyUsers }
  have hany : (db.users.any (·.id == user.id)) = true := by
    rw [List.any_eq_true]
    exact ⟨user, huser, by simp⟩
  refine ⟨_, (if_pos hany).trans (Db.statement_of_valid db hvalid ()), ?_⟩
  exact hkeeps (fun other => (other.id, other.loginName)) fun other => by rw [hid, hname]

theorem new_user_valid {db : Db} (user : User) (hid : user.id = nextRowid (db.users.map User.id))
    (hnew : db.getUserByLoginName user.loginName = none) (last : Nat) :
    Tables.Valid { db.toTables with users := db.users ++ [user], lastInsertRowid := last } := by
  have hsub : db.users.map User.id ⊆ (db.users ++ [user]).map User.id := by
    rw [List.map_append]
    exact List.subset_append_left _ _
  refine { db.valid with
    userIds := nodup_map_append db.valid.userIds (hid ▸ Db.next_rowid_not_mem _)
    userIdsPos := List.forall_mem_append.mpr
      ⟨db.valid.userIdsPos, List.forall_mem_singleton.mpr (hid ▸ Nat.succ_pos _)⟩
    userNames := nodup_map_append db.valid.userNames fun hmem => ?_
    loginUsers := fun login hlogin => hsub (db.valid.loginUsers login hlogin)
    nodeUsers := fun node hnode userId huser => hsub (db.valid.nodeUsers node hnode userId huser)
    keyUsers := fun key hkey => hsub (db.valid.keyUsers key hkey) }
  obtain ⟨other, hother, hname⟩ := List.mem_map.mp hmem
  exact List.find?_eq_none.mp hnew other hother (by simpa using hname)

theorem new_login_valid {db : Db} (login : Login)
    (hid : login.id = nextRowid (db.logins.map Login.id))
    (hnew : db.getLoginByProviderSubject login.provider login.loginName = none)
    (huser : login.userId ∈ db.users.map User.id) (last : Nat) :
    Tables.Valid { db.toTables with logins := db.logins ++ [login], lastInsertRowid := last } := by
  refine { db.valid with
    loginIds := nodup_map_append db.valid.loginIds (hid ▸ Db.next_rowid_not_mem _)
    loginSubjects := nodup_map_append db.valid.loginSubjects fun hmem => ?_
    loginUsers := List.forall_mem_append.mpr
      ⟨db.valid.loginUsers, List.forall_mem_singleton.mpr huser⟩ }
  obtain ⟨other, hother, hsame⟩ := List.mem_map.mp hmem
  obtain ⟨hprovider, hname⟩ := Prod.mk.inj hsame
  exact List.find?_eq_none.mp hnew other hother (by simp [hprovider, hname])

/-! ## One call -/

structure Recorded (accounts : List (Nat × String)) (email : String) (id : Nat) (db : Db) :
    Prop where
  account : (id, email) ∈ db.accounts
  kept : accounts ⊆ db.accounts

theorem oidc_user_recorded (profile : OidcProfile) (now : String) (accounts : List (Nat × String)) :
    Yields (fun w => accounts ⊆ w.db.accounts) (ControlPlane.oidcUser profile now)
      (fun id w => Recorded accounts profile.email id w.db) (fun _ _ => False) := by
  unfold ControlPlane.oidcUser
  refine triple_bind_read any_call_allows_quiet (reads_get_user_by_login_name profile.email)
    (calls_store trivial) fun found => ?_
  cases found with
  | some user =>
    have hrecorded (w : World) (hw : accounts ⊆ w.db.accounts ∧
        w.db.getUserByLoginName profile.email = some user) :
        Recorded accounts profile.email user.id w.db := by
      refine ⟨Db.mem_accounts.mpr ⟨user, List.mem_of_find?_eq_some hw.2, rfl, ?_⟩, hw.1⟩
      simpa using List.find?_some hw.2
    dsimp only
    split
    case isFalse => exact triple_pure hrecorded
    case isTrue =>
      refine Triple.bind (M := fun _ w => Recorded accounts profile.email user.id w.db)
        (triple_store (fun _ _ => trivial) ?_ ?_) fun _ => triple_pure fun _ hw => hw
      · intro w hw _ db hrun
        obtain ⟨db', hrename, haccounts⟩ :=
          Db.rename_user (List.mem_of_find?_eq_some hw.2) profile.displayName
        cases hrename.symm.trans hrun
        obtain ⟨haccount, hkept⟩ := hrecorded w hw
        exact ⟨haccounts ▸ haccount, haccounts ▸ hkept⟩
      · intro w hw error db hrun
        obtain ⟨db', hrename, -⟩ :=
          Db.rename_user (List.mem_of_find?_eq_some hw.2) profile.displayName
        cases hrename.symm.trans hrun
  | none =>
    refine Triple.bind (M := fun user w => Recorded accounts profile.email user.id w.db)
      (triple_store (fun _ _ => trivial) ?_ ?_) fun _ => triple_pure fun _ hw => hw
    · rintro w ⟨haccounts, hnone⟩ user db hrun
      obtain ⟨htables, rfl⟩ := Db.statement_ok hrun
      have hafter : db.accounts = w.db.accounts ++
          [(nextRowid (w.db.users.map User.id), profile.email)] := by
        unfold Db.accounts
        rw [htables, List.map_append]
        rfl
      refine ⟨?_, ?_⟩
      · rw [hafter]
        exact List.mem_append_right _ List.mem_cons_self
      · rw [hafter]
        exact fun account haccount => List.mem_append_left _ (haccounts haccount)
    · rintro w ⟨haccounts, hnone⟩ error db hrun
      have hvalid := new_user_valid
        { id := nextRowid (w.db.users.map User.id), loginName := profile.email
          displayName := profile.displayName, createdAt := now } rfl hnone
      cases (Db.statement_of_valid w.db (hvalid _) _).symm.trans hrun

theorem reads_get_login_by_provider_subject (provider subject : String) :
    Reads handler (store (.getLoginByProviderSubject provider subject)) fun w =>
      w.db.getLoginByProviderSubject provider subject :=
  reads_store (c := .getLoginByProviderSubject provider subject)
    (f := fun db => db.getLoginByProviderSubject provider subject) fun _ => rfl

theorem ensure_oidc_login_recorded (profile : OidcProfile) (now : String) (id : Nat)
    (accounts : List (Nat × String)) :
    Yields (fun w => Recorded accounts profile.email id w.db)
      (ControlPlane.ensureOidcLogin profile id now)
      (fun _ w => Recorded accounts profile.email id w.db) (fun _ _ => False) := by
  unfold ControlPlane.ensureOidcLogin
  refine triple_bind_read any_call_allows_quiet (reads_get_login_by_provider_subject "oidc" _)
    (calls_store trivial) fun found => ?_
  cases found with
  | some login => exact triple_pure fun _ hw => hw.1
  | none =>
    refine Triple.bind (M := fun _ w => Recorded accounts profile.email id w.db)
      (triple_store (fun _ _ => trivial) ?_ ?_) fun _ => triple_pure fun _ hw => hw
    · rintro w ⟨hrecorded, hnone⟩ login db hrun
      obtain ⟨htables, -⟩ := Db.statement_ok hrun
      have hsame : db.accounts = w.db.accounts := by
        unfold Db.accounts
        rw [htables]
      exact ⟨hsame ▸ hrecorded.account, hsame ▸ hrecorded.kept⟩
    · rintro w ⟨hrecorded, hnone⟩ error db hrun
      obtain ⟨user, huser, hid, -⟩ := Db.mem_accounts.mp hrecorded.account
      have hvalid := new_login_valid
        { id := nextRowid (w.db.logins.map Login.id), userId := id, provider := "oidc"
          loginName := profile.subject, createdAt := now } rfl hnone
        (List.mem_map.mpr ⟨user, huser, hid⟩)
      cases (Db.statement_of_valid w.db (hvalid _) _).symm.trans hrun

theorem upsert_oidc_user_recorded (cp : ControlPlane) (profile : OidcProfile) (w : World) :
    ∃ id w', exec (cp.upsertOidcUser profile) w = (.ok id, w') ∧
      Recorded w.db.accounts profile.email id w'.db := by
  have hcall : Yields (fun w' => w.db.accounts ⊆ w'.db.accounts)
      (cp.upsertOidcUser profile) (fun id w' => Recorded w.db.accounts profile.email id w'.db)
      (fun _ _ => False) := by
    refine Triple.bind (M := fun _ w' => w.db.accounts ⊆ w'.db.accounts)
      (Triple.bind (triple_perform (fun _ _ => trivial) fun _ h => h) fun _ =>
        triple_pure fun _ h => h) fun now => ?_
    refine (oidc_user_recorded profile now _).bind fun id => ?_
    exact (ensure_oidc_login_recorded profile now id _).bind fun _ => triple_pure fun _ hw => hw
  exact hcall.total (List.Subset.refl _)

/-! ## Sequences of calls -/

def oidcCalls (cp : ControlPlane) : List OidcProfile → World →
    List (Except ControlError Nat) × World
  | [], w => ([], w)
  | profile :: profiles, w =>
    let (answer, w) := exec (cp.upsertOidcUser profile) w
    let (answers, w) := oidcCalls cp profiles w
    (answer :: answers, w)

theorem oidc_calls_accounts (cp : ControlPlane) (profiles : List OidcProfile) (w : World) :
    w.db.accounts ⊆ (oidcCalls cp profiles w).2.db.accounts ∧
      List.Forall₂ (fun profile answer => ∃ id, answer = .ok id ∧
        (id, profile.email) ∈ (oidcCalls cp profiles w).2.db.accounts)
        profiles (oidcCalls cp profiles w).1 := by
  induction profiles generalizing w with
  | nil => exact ⟨List.Subset.refl _, .nil⟩
  | cons profile profiles ih =>
    obtain ⟨id, w', hrun, hrecorded⟩ := upsert_oidc_user_recorded cp profile w
    obtain ⟨hkept, hanswers⟩ := ih w'
    rw [oidcCalls, hrun]
    exact ⟨fun account haccount => hkept (hrecorded.kept haccount),
      .cons ⟨id, rfl, hkept hrecorded.account⟩ hanswers⟩

def CallAnswers (cp : ControlPlane) (profiles : List OidcProfile) (w : World) (i : Nat)
    (profile : OidcProfile) (answer : Except ControlError Nat) : Prop :=
  profiles[i]? = some profile ∧ (oidcCalls cp profiles w).1[i]? = some answer

/-- In every sequence of calls from any store, the calls with one subject answer one user id if and
only if they carry one email. -/
theorem oidc_subject_one_user_iff (cp : ControlPlane) (profiles : List OidcProfile) (w : World) :
    (∀ i j profile profile' answer answer', CallAnswers cp profiles w i profile answer →
      CallAnswers cp profiles w j profile' answer' → profile.subject = profile'.subject →
        ∃ id, answer = .ok id ∧ answer' = .ok id) ↔
      ∀ profile ∈ profiles, ∀ profile' ∈ profiles, profile.subject = profile'.subject →
        profile.email = profile'.email := by
  obtain ⟨hlength, hanswers⟩ := List.forall₂_iff_get.mp (oidc_calls_accounts cp profiles w).2
  have haccount {i : Nat} {profile : OidcProfile} {answer : Except ControlError Nat}
      (h : CallAnswers cp profiles w i profile answer) :
      ∃ id, answer = .ok id ∧ (id, profile.email) ∈ (oidcCalls cp profiles w).2.db.accounts := by
    obtain ⟨hi, rfl⟩ := List.getElem?_eq_some_iff.mp h.1
    obtain ⟨hi', rfl⟩ := List.getElem?_eq_some_iff.mp h.2
    exact hanswers i hi hi'
  have hanswered (profile : OidcProfile) (hprofile : profile ∈ profiles) :
      ∃ i answer, CallAnswers cp profiles w i profile answer := by
    obtain ⟨i, hi, rfl⟩ := List.getElem_of_mem hprofile
    exact ⟨i, _, List.getElem?_eq_getElem hi, List.getElem?_eq_getElem (hlength ▸ hi)⟩
  constructor
  · intro hone profile hprofile profile' hprofile' hsubject
    obtain ⟨i, answer, hcall⟩ := hanswered profile hprofile
    obtain ⟨j, answer', hcall'⟩ := hanswered profile' hprofile'
    obtain ⟨id, rfl, rfl⟩ := hone i j _ _ _ _ hcall hcall' hsubject
    obtain ⟨_, hid, hmem⟩ := haccount hcall
    obtain ⟨_, hid', hmem'⟩ := haccount hcall'
    cases hid
    cases hid'
    exact (Db.account_eq_iff hmem hmem').mp rfl
  · intro hsame i j profile profile' answer answer' hcall hcall' hsubject
    obtain ⟨id, rfl, hmem⟩ := haccount hcall
    obtain ⟨id', rfl, hmem'⟩ := haccount hcall'
    have hemail := hsame profile (List.mem_of_getElem? hcall.1) profile'
      (List.mem_of_getElem? hcall'.1) hsubject
    obtain rfl := (Db.account_eq_iff hmem hmem').mpr hemail
    exact ⟨id, rfl, rfl⟩

/-- A subject whose email changes becomes another user. -/
theorem oidc_subject_two_users :
    (oidcCalls openServer
      [{ subject := "7f3a", email := "kim@example.com", displayName := "Kim" },
        { subject := "7f3a", email := "kim@example.org", displayName := "Kim" }]
      (openServer.withStore Db.empty stillEnv)).1.map Except.toOption = [some 1, some 2] := by
  decide +kernel

end Crabscale.Control
