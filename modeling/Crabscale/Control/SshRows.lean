import Crabscale.Control.Rows
import Crabscale.Control.Ssh

/-!
# SSH approvals as a map

Saving and deleting an SSH approval always succeeds, so the table is a map from auth ids to
approvals, and `Call.get_ssh_auth` says what every call does to it.
-/

namespace Crabscale.Control

open Rust Proto Interaction

namespace Db

variable {db : Db}

theorem get_ssh_auth_eq_some {authId : String} {auth : SshAuth} :
    db.getSshAuth authId = some auth ↔
      auth.authId = authId ∧ ∃ row ∈ db.sshAuths, row.auth = auth := by
  have hfind (row : SshAuthRow) := find?_eq_some_iff_of_nodup (a := row) (k := authId)
    (fun row => row.auth.authId) db.valid.sshAuthIds
  rw [getSshAuth, Option.map_eq_some_iff]
  constructor
  · rintro ⟨row, hrow, rfl⟩
    exact ⟨((hfind row).mp hrow).2, row, ((hfind row).mp hrow).1, rfl⟩
  · rintro ⟨hid, row, hrow, rfl⟩
    exact ⟨row, (hfind row).mpr ⟨hrow, hid⟩, rfl⟩

theorem get_ssh_auth_congr {db' : Db} (h : db'.sshAuths = db.sshAuths) (authId : String) :
    db'.getSshAuth authId = db.getSshAuth authId := by
  simp only [getSshAuth, h]

theorem mem_list_ssh_auths {auth : SshAuth} :
    auth ∈ db.listSshAuths ↔ db.getSshAuth auth.authId = some auth := by
  rw [get_ssh_auth_eq_some, listSshAuths, (List.perm_insertionSort _ _).mem_iff, List.mem_map]
  exact ⟨fun h => ⟨rfl, h⟩, fun h => h.2⟩

theorem save_ssh_auth_ok (db : Db) (auth : SshAuth) :
    ∃ db', db.saveSshAuth auth = (.ok (), db') ∧ ∀ authId, db'.getSshAuth authId =
      if auth.authId = authId then some auth else db.getSshAuth authId := by
  unfold saveSshAuth
  split
  case isTrue hstored =>
    obtain ⟨before, hbefore⟩ := Option.isSome_iff_exists.mp hstored
    obtain ⟨hid, first, hfirst, rfl⟩ := get_ssh_auth_eq_some.mp hbefore
    have hids : (db.sshAuths.map fun row =>
        if row.auth.authId = auth.authId then { row with auth } else row).map
          (fun row => row.auth.authId) = db.sshAuths.map fun row => row.auth.authId := by
      rw [List.map_map]
      refine List.map_congr_left fun row _ => ?_
      show (if row.auth.authId = auth.authId then { row with auth } else row).auth.authId = _
      split
      case isTrue hsame => exact hsame.symm
      case isFalse => rfl
    have hvalid : Tables.Valid { db.toTables with sshAuths := db.sshAuths.map fun row =>
        if row.auth.authId = auth.authId then { row with auth } else row } :=
      { db.valid with sshAuthIds := by rw [hids]; exact db.valid.sshAuthIds }
    refine ⟨_, statement_of_valid db hvalid (), fun authId => Option.ext fun found => ?_⟩
    simp only [get_ssh_auth_eq_some, List.mem_map]
    constructor
    · rintro ⟨rfl, _, ⟨row, hrow, rfl⟩, rfl⟩
      split
      case isTrue hsame => rw [if_pos rfl]
      case isFalse hother =>
        rw [if_neg fun h => hother h.symm]
        exact get_ssh_auth_eq_some.mpr ⟨rfl, row, hrow, rfl⟩
    · intro hfound
      split_ifs at hfound with hsame
      · cases hfound
        exact ⟨hsame, _, ⟨first, hfirst, if_pos hid⟩, rfl⟩
      · obtain ⟨rfl, row, hrow, rfl⟩ := get_ssh_auth_eq_some.mp hfound
        exact ⟨rfl, _, ⟨row, hrow, if_neg fun h => hsame h.symm⟩, rfl⟩
  case isFalse hmissing =>
    have hnew : auth.authId ∉ db.sshAuths.map fun row => row.auth.authId := by
      intro hmem
      obtain ⟨row, hrow, hid⟩ := List.mem_map.mp hmem
      rw [get_ssh_auth_eq_some.mpr ⟨hid, row, hrow, rfl⟩] at hmissing
      exact hmissing rfl
    have hvalid : Tables.Valid { db.toTables with
        sshAuths := db.sshAuths ++
          [{ rowid := nextRowid (db.sshAuths.map SshAuthRow.rowid), auth }]
        lastInsertRowid := nextRowid (db.sshAuths.map SshAuthRow.rowid) } :=
      { db.valid with sshAuthIds := nodup_map_append db.valid.sshAuthIds hnew }
    refine ⟨_, statement_of_valid db hvalid (), fun authId => Option.ext fun found => ?_⟩
    simp only [get_ssh_auth_eq_some, List.mem_append, List.mem_singleton]
    constructor
    · rintro ⟨rfl, row, hrow | rfl, rfl⟩
      · have hother : auth.authId ≠ row.auth.authId := by
          intro hsame
          exact hnew (List.mem_map.mpr ⟨row, hrow, hsame.symm⟩)
        rw [if_neg hother]
        exact get_ssh_auth_eq_some.mpr ⟨rfl, row, hrow, rfl⟩
      · rw [if_pos rfl]
    · intro hfound
      split_ifs at hfound with hsame
      · cases hfound
        exact ⟨hsame, _, .inr rfl, rfl⟩
      · obtain ⟨hid, row, hrow, hauth⟩ := get_ssh_auth_eq_some.mp hfound
        exact ⟨hid, row, .inl hrow, hauth⟩

theorem delete_ssh_auth_ok (db : Db) (deleted : String) :
    ∃ db', db.deleteSshAuth deleted = (.ok (), db') ∧ ∀ authId, db'.getSshAuth authId =
      if deleted = authId then none else db.getSshAuth authId := by
  have hvalid : Tables.Valid
      { db.toTables with sshAuths := db.sshAuths.filter (·.auth.authId ≠ deleted) } :=
    { db.valid with sshAuthIds := db.valid.sshAuthIds.sublist (List.filter_sublist.map _) }
  refine ⟨_, statement_of_valid db hvalid (), fun authId => Option.ext fun found => ?_⟩
  simp only [get_ssh_auth_eq_some, List.mem_filter, decide_eq_true_eq]
  constructor
  · rintro ⟨rfl, row, ⟨hrow, hother⟩, rfl⟩
    rw [if_neg fun h => hother h.symm]
    exact get_ssh_auth_eq_some.mpr ⟨rfl, row, hrow, rfl⟩
  · intro hfound
    split_ifs at hfound with hsame
    obtain ⟨rfl, row, hrow, rfl⟩ := get_ssh_auth_eq_some.mp hfound
    exact ⟨rfl, row, ⟨hrow, fun h => hsame h.symm⟩, rfl⟩

end Db

def Call.sshAuthAfter (authId : String) (stored : Option SshAuth) : Call → Option SshAuth
  | .store (.saveSshAuth auth) => if auth.authId = authId then some auth else stored
  | .store (.deleteSshAuth deleted) => if deleted = authId then none else stored
  | _ => stored

theorem Call.get_ssh_auth (c : Call) (w : World) (authId : String) :
    (handler c w).2.db.getSshAuth authId = c.sshAuthAfter authId (w.db.getSshAuth authId) := by
  by_cases hwrites : c.writes ≠ some .sshAuths
  · rw [Db.get_ssh_auth_congr ((c.same_but w).sshAuths hwrites)]
    cases c with
    | store c =>
      cases c with
      | saveSshAuth | deleteSshAuth => exact absurd rfl hwrites
      | _ => rfl
    | memory c => rfl
    | env c => rfl
  rw [not_not] at hwrites
  obtain ⟨c, rfl⟩ := Call.store_of_writes hwrites
  cases c with
  | saveSshAuth auth =>
    obtain ⟨db', hsaved, hget⟩ := w.db.save_ssh_auth_ok auth
    show (w.db.saveSshAuth auth).2.getSshAuth authId = _
    rw [hsaved]
    exact hget authId
  | deleteSshAuth deleted =>
    obtain ⟨db', hdeleted, hget⟩ := w.db.delete_ssh_auth_ok deleted
    show (w.db.deleteSshAuth deleted).2.getSshAuth authId = _
    rw [hdeleted]
    exact hget authId
  | _ => cases hwrites

theorem Call.get_ssh_auth_cases (c : Call) (w : World) (authId : String) :
    (handler c w).2.db.getSshAuth authId = w.db.getSshAuth authId ∨
      (∃ auth, c = .store (.saveSshAuth auth) ∧ auth.authId = authId ∧
        (handler c w).2.db.getSshAuth authId = some auth) ∨
      c = .store (.deleteSshAuth authId) ∧ (handler c w).2.db.getSshAuth authId = none := by
  rw [c.get_ssh_auth w authId]
  cases c with
  | memory c => exact .inl rfl
  | env c => exact .inl rfl
  | store c =>
    cases c with
    | saveSshAuth auth =>
      by_cases hid : auth.authId = authId
      · exact .inr (.inl ⟨auth, rfl, hid, if_pos hid⟩)
      · exact .inl (if_neg hid)
    | deleteSshAuth deleted =>
      by_cases hid : deleted = authId
      · exact .inr (.inr ⟨by rw [hid], if_pos hid⟩)
      · exact .inl (if_neg hid)
    | _ => exact .inl rfl

/-! ## The latest acceptance -/

def SshAuth.acceptedAt (ext : Externals) (binding : SshBinding) (auth : SshAuth) : Option Int :=
  if auth.binding ≠ binding then none
  else
    match auth.verdict with
    | .accepted lastAuthAt => ext.parseRfc3339 lastAuthAt
    | .pending | .rejected => none

theorem SshAuth.accepted_at_eq_some {ext : Externals} {binding : SshBinding} {auth : SshAuth}
    {time : Int} : auth.acceptedAt ext binding = some time ↔ auth.binding = binding ∧
      ∃ lastAuthAt, auth.verdict = .accepted lastAuthAt ∧
        ext.parseRfc3339 lastAuthAt = some time := by
  unfold SshAuth.acceptedAt
  by_cases hbinding : auth.binding = binding
  · rw [if_neg (not_not.mpr hbinding)]
    cases auth.verdict <;> simp [hbinding]
  · simp [hbinding]

def laterAcceptance (ext : Externals) (binding : SshBinding) (best : Option (SshAuth × Int))
    (auth : SshAuth) : Option (SshAuth × Int) :=
  match auth.acceptedAt ext binding with
  | some last => if best.all fun b => last > b.2 then some (auth, last) else best
  | none => best

theorem latest_acceptance_eq (ext : Externals) (binding : SshBinding) (entries : List SshAuth) :
    latestAcceptance ext binding entries = entries.foldl (laterAcceptance ext binding) none := by
  refine congrFun (congrFun (congrArg List.foldl (funext₂ fun best auth => ?_)) none) entries
  unfold laterAcceptance SshAuth.acceptedAt
  split_ifs
  · rfl
  · cases auth.verdict <;> rfl

section Latest

variable {ext : Externals} {binding : SshBinding} {entries : List SshAuth} {auth : SshAuth}
  {time last : Int} {best : Option (SshAuth × Int)}

theorem latest_acceptance_mem (h : latestAcceptance ext binding entries = some (auth, last)) :
    auth ∈ entries ∧ auth.acceptedAt ext binding = some last := by
  rw [latest_acceptance_eq] at h
  refine List.foldlRecOn entries _ (motive := fun best => ∀ auth last, best = some (auth, last) →
    auth ∈ entries ∧ auth.acceptedAt ext binding = some last)
    (by intro _ _ hnone; cases hnone) ?_ auth last h
  intro best hbest entry hentry auth last hnext
  unfold laterAcceptance at hnext
  split at hnext
  case h_2 => exact hbest auth last hnext
  case h_1 time hwhen =>
    split_ifs at hnext
    · cases hnext
      exact ⟨hentry, hwhen⟩
    · exact hbest auth last hnext

theorem later_acceptance_keeps (h : ∃ found last, best = some (found, last) ∧ time ≤ last)
    (entry : SshAuth) :
    ∃ found last, laterAcceptance ext binding best entry = some (found, last) ∧ time ≤ last := by
  obtain ⟨found, last, rfl, hle⟩ := h
  unfold laterAcceptance
  split
  case h_2 => exact ⟨found, last, rfl, hle⟩
  case h_1 other _ =>
    split_ifs with hlater
    · simp only [Option.all_some, decide_eq_true_eq] at hlater
      exact ⟨entry, other, rfl, by omega⟩
    · exact ⟨found, last, rfl, hle⟩

theorem later_acceptance_self (h : auth.acceptedAt ext binding = some time) :
    ∃ found last, laterAcceptance ext binding best auth = some (found, last) ∧ time ≤ last := by
  unfold laterAcceptance
  rw [h]
  dsimp only
  split_ifs with hlater
  · exact ⟨auth, time, rfl, Int.le_refl _⟩
  · cases best with
    | none => exact absurd rfl hlater
    | some b =>
      simp only [Option.all_some, decide_eq_true_eq] at hlater
      exact ⟨b.1, b.2, rfl, by omega⟩

theorem latest_acceptance_le (hmem : auth ∈ entries) (h : auth.acceptedAt ext binding = some time) :
    ∃ found last, latestAcceptance ext binding entries = some (found, last) ∧ time ≤ last := by
  have hkeep (entries : List SshAuth) : ∀ best : Option (SshAuth × Int),
      (∃ found last, best = some (found, last) ∧ time ≤ last) → ∃ found last,
        entries.foldl (laterAcceptance ext binding) best = some (found, last) ∧ time ≤ last := by
    induction entries with
    | nil => exact fun _ hbest => hbest
    | cons entry entries ih => exact fun _ hbest => ih _ (later_acceptance_keeps hbest entry)
  obtain ⟨before, after, rfl⟩ := List.append_of_mem hmem
  rw [latest_acceptance_eq, List.foldl_append, List.foldl_cons]
  exact hkeep after _ (later_acceptance_self h)

end Latest

end Crabscale.Control
