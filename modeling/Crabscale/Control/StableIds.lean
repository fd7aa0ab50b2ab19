import Crabscale.Control.KeyBinding

/-!
# Stable ids and registration

A new node gets its stable id in a second statement, for the row of the last insert. When a followup
writes over an existing row there was no insert, so its row keeps an empty stable id, and then the
next new node breaks the unique column. `Stable` rules this out: every row has the stable id of its
own id. It holds in every run in which such a followup finds its row to be the last insert, and with
it `registration_never_wedges`.
-/

namespace Crabscale.Control

open Rust Proto Policy Interaction Interaction.Program ControlPlane

/-! ## Stable ids -/

variable {node : Node}

namespace Db

variable {db : Db}

def HasStableId (row : Node) : Prop := row.stableId = stableIdOf row.id

def Stable (db : Db) : Prop := ∀ row ∈ db.nodes, HasStableId row

theorem stable_id_of_injective : Function.Injective stableIdOf := by
  intro a b hab
  exact format_padded_injective 23 (String.append_right_inj "n" |>.mp hab)

theorem stable_id_of_ne_empty (id : Nat) : stableIdOf id ≠ "" := by
  intro h
  simp [stableIdOf] at h

/-- Editing rows in place keeps the tables valid if no id or key changes, the stable ids stay apart
and the users exist. -/
theorem edit_valid {edit : Node → Node} (hids : ∀ row, (edit row).id = row.id)
    (hkeys : ∀ row, (edit row).nodeKey = row.nodeKey)
    (hstable : ((db.nodes.map edit).map Node.stableId).Nodup)
    (husers : ∀ row ∈ db.nodes, ∀ userId ∈ (edit row).userId, userId ∈ db.users.map User.id) :
    Tables.Valid { db.toTables with nodes := db.nodes.map edit } := by
  refine
    { db.valid with
      nodeIds := ?_, nodeIdsPos := ?_, stableIds := hstable, nodeKeys := ?_, nodeUsers := ?_ }
  · refine List.pairwise_map.mpr (db.valid.nodeIds.imp fun h => ?_)
    rwa [hids, hids]
  · intro row hrow
    obtain ⟨before, hbefore, rfl⟩ := List.mem_map.mp hrow
    rw [hids]
    exact db.valid.nodeIdsPos before hbefore
  · rw [List.map_map]
    exact (congrArg List.Nodup (List.map_congr_left fun row _ => hkeys row)).mpr db.valid.nodeKeys
  · intro row hrow
    obtain ⟨before, hbefore, rfl⟩ := List.mem_map.mp hrow
    exact husers before hbefore

theorem set_stable_id_valid {id : Nat} (hothers : ∀ row ∈ db.nodes, row.id ≠ id → HasStableId row) :
    Tables.Valid { db.toTables with
      nodes := db.nodes.map fun row =>
        if row.id = id then { row with stableId := stableIdOf id } else row } := by
  have hstable : ∀ row ∈ db.nodes,
      (if row.id = id then { row with stableId := stableIdOf id } else row).stableId =
        stableIdOf row.id := by
    intro row hrow
    split
    case isTrue h => rw [h]
    case isFalse h => exact hothers row hrow h
  refine edit_valid (fun row => by split <;> rfl) (fun row => by split <;> rfl) ?_ ?_
  · rw [List.map_map]
    refine (congrArg List.Nodup (List.map_congr_left hstable)).mpr ?_
    have hinjective := (nodup_node_ids db).map stable_id_of_injective
    rwa [List.map_map] at hinjective
  · intro row hrow
    have := db.valid.nodeUsers row hrow
    split <;> exact this

/-- When only the row with the id lacks its stable id, setting it succeeds and completes the
table. -/
theorem set_stable_id_ok {id : Nat} (hothers : ∀ row ∈ db.nodes, row.id ≠ id → HasStableId row) :
    ∃ db', db.setStableId id (stableIdOf id) = .ok db' ∧ db'.Stable := by
  refine ⟨_, commit_of_valid (set_stable_id_valid hothers), fun row hrow => ?_⟩
  obtain ⟨before, hbefore, rfl⟩ := List.mem_map.mp hrow
  unfold HasStableId
  split
  case isTrue h => rw [h]
  case isFalse h => exact hothers before hbefore h

theorem upsert_fresh {db₁ : Db} (hid : node.id = 0) (hempty : node.stableId = "")
    (hfirst : db.insertOrUpdateNode node = .ok db₁)
    (hothers : ∀ row ∈ db₁.nodes, row.id ≠ db₁.lastInsertRowid → HasStableId row) :
    ∃ stored db', db.upsertNode node = (.ok stored, db') ∧ db'.Stable := by
  obtain ⟨db', hset, hstable⟩ := set_stable_id_ok hothers
  unfold upsertNode
  rw [hfirst]
  simp only [hid, if_true, hempty, hset]
  exact ⟨_, _, rfl, hstable⟩

theorem insert_valid (hstable : db.Stable) (hempty : node.stableId = "")
    (hnew : ∀ row ∈ db.nodes, row.nodeKey ≠ node.nodeKey)
    (huser : ∀ userId ∈ node.userId, userId ∈ db.users.map User.id) :
    Tables.Valid { db.toTables with
      nodes := db.nodes ++ [{ node with id := nextRowid (db.nodes.map Node.id) }]
      lastInsertRowid := nextRowid (db.nodes.map Node.id) } := by
  refine
    { db.valid with
      nodeIds := ?_, nodeIdsPos := ?_, stableIds := ?_, nodeKeys := ?_, nodeUsers := ?_ }
  · refine List.pairwise_append.mpr ⟨db.valid.nodeIds, List.pairwise_singleton _ _, ?_⟩
    intro row hrow other hother
    rw [List.mem_singleton.mp hother]
    exact lt_next_rowid (List.mem_map_of_mem hrow)
  · exact List.forall_mem_append.mpr
      ⟨db.valid.nodeIdsPos, List.forall_mem_singleton.mpr (Nat.succ_pos _)⟩
  · refine nodup_map_append db.valid.stableIds fun hmem => ?_
    obtain ⟨row, hrow, hsame⟩ := List.mem_map.mp hmem
    exact stable_id_of_ne_empty _ ((hstable row hrow).symm.trans (hsame.trans hempty))
  · refine nodup_map_append db.valid.nodeKeys fun hmem => ?_
    obtain ⟨row, hrow, hsame⟩ := List.mem_map.mp hmem
    exact hnew row hrow hsame
  · exact List.forall_mem_append.mpr ⟨db.valid.nodeUsers, List.forall_mem_singleton.mpr huser⟩

theorem others_stable_new {db₁ : Db} (hstable : db.Stable)
    (hnew : ∀ row ∈ db.nodes, row.nodeKey ≠ node.nodeKey)
    (hfirst : db.insertOrUpdateNode node = .ok db₁) :
    ∀ row ∈ db₁.nodes, row.id ≠ db₁.lastInsertRowid → HasStableId row := by
  rw [insert_or_update_new (get_node_by_node_key_eq_none.mpr hnew)] at hfirst
  have htables := commit_ok hfirst
  rw [htables]
  exact List.forall_mem_append.mpr ⟨fun row hrow _ => hstable row hrow,
    List.forall_mem_singleton.mpr fun hother => (hother rfl).elim⟩

theorem upsert_new_ok (hstable : db.Stable) (hid : node.id = 0)
    (hempty : node.stableId = "") (hnew : ∀ row ∈ db.nodes, row.nodeKey ≠ node.nodeKey)
    (huser : ∀ userId ∈ node.userId, userId ∈ db.users.map User.id) :
    ∃ stored db', db.upsertNode node = (.ok stored, db') := by
  have hfirst := (insert_or_update_new (get_node_by_node_key_eq_none.mpr hnew)).trans
    (commit_of_valid (insert_valid hstable hempty hnew huser))
  obtain ⟨stored, db', hok, -⟩ :=
    upsert_fresh hid hempty hfirst (others_stable_new hstable hnew hfirst)
  exact ⟨stored, db', hok⟩

theorem rewrite_valid
    (hother : ∀ row ∈ db.nodes, row.nodeKey ≠ node.nodeKey → row.stableId ≠ node.stableId)
    (huser : ∀ userId ∈ node.userId, userId ∈ db.users.map User.id) :
    Tables.Valid { db.toTables with
      nodes := db.nodes.map fun row =>
        if row.nodeKey = node.nodeKey then { node with id := row.id } else row } := by
  refine edit_valid (fun row => by split <;> rfl) (fun row => ?_) ?_ ?_
  · split
    case isTrue h => exact h.symm
    case isFalse => rfl
  · -- Two rows have different keys, so at most one of them is written over.
    rw [List.map_map]
    refine List.pairwise_map.mpr (((List.pairwise_map.mp db.valid.stableIds).and
      (List.pairwise_map.mp db.valid.nodeKeys)).imp_of_mem fun {a b} ha hb hdiffer => ?_)
    dsimp only [Function.comp_apply]
    split <;> split
    case isTrue.isTrue hkeya hkeyb => exact (hdiffer.2 (hkeya.trans hkeyb.symm)).elim
    case isTrue.isFalse hkeyb => exact (hother b hb hkeyb).symm
    case isFalse.isTrue hkeya _ => exact hother a ha hkeya
    case isFalse.isFalse => exact hdiffer.1
  · intro row hrow
    split
    · exact huser
    · exact db.valid.nodeUsers row hrow

theorem set_stable_id_same {id : Nat} (h : ∀ row ∈ db.nodes, row.id = id → HasStableId row) :
    db.setStableId id (stableIdOf id) = .ok db := by
  have hnodes : (db.nodes.map fun row =>
      if row.id = id then { row with stableId := stableIdOf id } else row) = db.nodes := by
    refine (List.map_congr_left fun row hrow => ?_).trans (List.map_id _)
    split
    case isTrue hid =>
      have hstable := h row hrow hid
      rw [HasStableId, hid] at hstable
      rw [← hstable]
      rfl
    case isFalse => rfl
  unfold setStableId
  rw [hnodes]
  exact commit_of_valid db.valid

/-- The rows other than the one written over have their stable ids after the first statement, which
inserts nothing. -/
theorem others_stable_existing {row : Node} {db₁ : Db} (hstable : db.Stable)
    (hrow : row ∈ db.nodes) (hkey : row.nodeKey = node.nodeKey)
    (hfirst : db.insertOrUpdateNode node = .ok db₁) :
    db₁.lastInsertRowid = db.lastInsertRowid ∧
      ∀ other ∈ db₁.nodes, other.id ≠ row.id → HasStableId other := by
  have hlookup := get_node_by_node_key_eq_some.mpr ⟨hrow, hkey⟩
  rw [insert_or_update_existing hlookup] at hfirst
  have htables := commit_ok hfirst
  refine ⟨by rw [htables], ?_⟩
  intro other hother hid
  rw [htables] at hother
  obtain ⟨before, hbefore, rfl⟩ := List.mem_map.mp hother
  split at hid
  case isTrue hsame =>
    have hsome := get_node_by_node_key_eq_some.mpr ⟨hbefore, hsame⟩
    rw [hlookup] at hsome
    cases hsome
    exact (hid rfl).elim
  case isFalse hsame =>
    rw [if_neg hsame]
    exact hstable before hbefore

theorem upsert_ok (hstable : db.Stable) (hid : node.id = 0) (hempty : node.stableId = "")
    (huser : ∀ userId ∈ node.userId, userId ∈ db.users.map User.id) :
    ∃ stored db', db.upsertNode node = (.ok stored, db') := by
  cases hlookup : db.getNodeByNodeKey node.nodeKey with
  | none => exact upsert_new_ok hstable hid hempty (get_node_by_node_key_eq_none.mp hlookup) huser
  | some row =>
    obtain ⟨hrow, hkey⟩ := get_node_by_node_key_eq_some.mp hlookup
    have hother : ∀ other ∈ db.nodes, other.nodeKey ≠ node.nodeKey →
        other.stableId ≠ node.stableId := by
      intro other hmem _ hsame
      exact stable_id_of_ne_empty _ ((hstable other hmem).symm.trans (hsame.trans hempty))
    obtain ⟨db₁, hfirst⟩ : ∃ db₁, db.insertOrUpdateNode node = .ok db₁ :=
      ⟨_, (insert_or_update_existing hlookup).trans
        (commit_of_valid (rewrite_valid hother huser))⟩
    obtain ⟨hsame, hothers⟩ := others_stable_existing hstable hrow hkey hfirst
    by_cases hlast : row.id = db.lastInsertRowid
    · obtain ⟨stored, db', hok, -⟩ := upsert_fresh hid hempty hfirst fun other hmem hne =>
        hothers other hmem fun h => hne (h.trans (hlast.trans hsame.symm))
      exact ⟨stored, db', hok⟩
    · -- The second statement goes to a row that has its stable id already.
      have hset := set_stable_id_same fun other hmem (hid : other.id = db₁.lastInsertRowid) =>
        hothers other hmem fun h => hlast (h.symm.trans (hid.trans hsame))
      unfold upsertNode
      rw [hfirst]
      simp only [hid, if_true, hempty, hset]
      exact ⟨_, _, rfl⟩

theorem upsert_failed {error : StoreError}
    (h : db.insertOrUpdateNode node = .error error) : db.upsertNode node = (.error error, db) := by
  rw [upsertNode, h]

theorem upsert_rewrite_stable {row : Node} (hstable : db.Stable) (hrow : row ∈ db.nodes)
    (hsame : SameRow node row) : (db.upsertNode node).2.Stable := by
  cases hfirst : db.insertOrUpdateNode node with
  | error error =>
    rw [upsert_failed hfirst]
    exact hstable
  | ok db₁ =>
    have hstored : node.stableId = stableIdOf row.id := hsame.stableId.trans (hstable row hrow)
    have hne : node.stableId ≠ "" := hstored ▸ stable_id_of_ne_empty _
    have hlookup := get_node_by_node_key_eq_some.mpr ⟨hrow, hsame.nodeKey.symm⟩
    unfold upsertNode
    simp only [hfirst, hne, if_false]
    rw [insert_or_update_existing hlookup] at hfirst
    intro other hother
    rw [congrArg Tables.nodes (commit_ok hfirst)] at hother
    obtain ⟨before, hbefore, rfl⟩ := List.mem_map.mp hother
    split
    case isFalse => exact hstable before hbefore
    case isTrue hkey =>
      have hsome := get_node_by_node_key_eq_some.mpr ⟨hbefore, hkey⟩
      rw [hlookup] at hsome
      cases hsome
      exact hstored

end Db

/-! ## What the calls keep -/

variable {db : Db}

section Invariants

variable {cp : ControlPlane} {Takes : Node → Node → Prop} {db₀ : Db} {w : World}

/-- A call of an operation keeps the stable ids, if the rows it may take over are the last
insert. -/
theorem Db.Stable.call {c : Call} (hground : Grounded cp db₀)
    (htakes : ∀ row node, Takes row node → row.id = db₀.lastInsertRowid) (hstable : w.db.Stable)
    (hc : Allowed cp Takes db₀ w c) : (handler c w).2.db.Stable := by
  obtain hsame | ⟨deleted, rfl⟩ | ⟨node, rfl⟩ := c.nodes_cases w
  · unfold Db.Stable
    rw [hsame]
    exact hstable
  · exact fun row hrow => hstable row (Db.nodes_delete w.db deleted hrow)
  · change (w.db.upsertNode node).2.Stable
    have hfresh (hid : node.id = 0) (hempty : node.stableId = "")
        (hothers : ∀ db₁, w.db.insertOrUpdateNode node = .ok db₁ →
          ∀ row ∈ db₁.nodes, row.id ≠ db₁.lastInsertRowid → Db.HasStableId row) :
        (w.db.upsertNode node).2.Stable := by
      cases hfirst : w.db.insertOrUpdateNode node with
      | error error =>
        rw [Db.upsert_failed hfirst]
        exact hstable
      | ok db₁ =>
        obtain ⟨stored, db', hrun, hdone⟩ :=
          Db.upsert_fresh hid hempty hfirst (hothers db₁ hfirst)
        rw [hrun]
        exact hdone
    cases hc with
    | rewrite hrow hsame => exact Db.upsert_rewrite_stable hstable hrow hsame
    | create _ hnew hid hempty =>
      exact hfresh hid hempty fun db₁ hfirst => Db.others_stable_new hstable hnew hfirst
    | takeover hrow hkey htaken hid hempty hlast =>
      refine hfresh hid hempty fun db₁ hfirst other hmem hne => ?_
      obtain ⟨hsame, hothers⟩ := Db.others_stable_existing hstable hrow hkey hfirst
      refine hothers other hmem fun h => hne ?_
      rw [h, hsame, htakes _ _ htaken, hlast hground]

theorem Grounded.call {c : Call} (hids : cp.HasIds) (h : Grounded cp w.db)
    (hc : Allowed cp Takes db₀ w c) : Grounded cp (handler c w).2.db := by
  have hkept : ∀ {db' : Db}, Bootstrapped cp w.db → (handler c w).2.db = db' →
      Bootstrapped cp db' := fun hboot heq => heq ▸
    hboot.mono (c.user_ids_subset w) (c.login_ids_subset w) (c.key_prefixes_subset w)
  refine ⟨?_, ?_, ?_⟩
  · rw [← List.map_eq_nil_iff (f := User.id)]
    obtain hsame | ⟨user, rfl, hadded⟩ := c.user_ids_cases w
    · rw [hsame, List.map_eq_nil_iff]
      exact h.user
    · rw [hadded, List.mem_append]
      obtain hid | hsome := hc
      · exact .inr (.inr (by simp [hid, hids.1]))
      · exact .inr (.inl (h.user.resolve_left (hsome h)))
  · rw [← List.map_eq_nil_iff (f := Login.id)]
    obtain hsame | ⟨login, rfl, hadded⟩ := c.login_ids_cases w
    · rw [hsame, List.map_eq_nil_iff]
      exact h.login
    · rw [hadded, List.mem_append]
      obtain hid | hsome := hc
      · exact .inr (.inr (by simp [hid, hids.2]))
      · exact .inr (.inl (h.login.resolve_left (hsome h)))
  · obtain hsame | ⟨entry, rfl⟩ | ⟨authId, rfl⟩ := c.pending_cases w
    · exact h.pending.imp hsame.trans fun hboot => hkept hboot rfl
    · exact .inr (hkept (hc hids h) rfl)
    · refine h.pending.imp (fun hnil => ?_) fun hboot => hkept hboot rfl
      obtain ⟨db', hdeleted, htables⟩ := Db.delete_pending_ok w.db authId
      change (w.db.deletePending authId).2.pending = []
      rw [hdeleted, htables, hnil]
      rfl

end Invariants

/-! ## What runs keep -/

section Run

variable {cp : ControlPlane}

def LastInsertFollowups (w : World) : Op → Prop
  | .register machineKey request => ∀ row, Completes w.db machineKey request row →
      row.id = w.db.lastInsertRowid
  | _ => True

/-- The invariant of a store that registration can write to. -/
structure Writable (cp : ControlPlane) (db : Db) : Prop where
  stable : db.Stable
  grounded : Grounded cp db

theorem writable_empty : Writable cp Db.empty :=
  ⟨List.forall_mem_nil _, ⟨.inl rfl, .inl rfl, .inl rfl⟩⟩

theorem Writable.step {w : World} {op : Op} (hids : cp.HasIds) (hlast : LastInsertFollowups w op)
    (h : Writable cp w.db) : Writable cp (op.exec cp w).db := by
  refine Op.invariant (fun w' c hw' hc =>
    ⟨hw'.stable.call h.grounded (fun row node htaken => ?_) hc,
    hw'.grounded.call hids hc⟩) h
  cases op with
  | register machineKey request => exact hlast row htaken.2
  | _ => exact htaken.elim

theorem Runs.writable {P : World → Prop} {env : Env} {w : World} (hids : cp.HasIds)
    (hrun : Runs cp LastInsertFollowups P (cp.withStore Db.empty env) w) : Writable cp w.db := by
  induction hrun with
  | refl _ => exact writable_empty
  | step _ hlast _ ih => exact ih.step hids hlast

end Run

/-! ## Registration on a writable store -/

/-- The same clock, read at least as often. -/
structure Later (w₀ w : World) : Prop where
  clock : w.env.clock = w₀.env.clock
  position : w₀.env.position ≤ w.env.position

theorem Later.call {w₀ w : World} (h : Later w₀ w) (c : Call) : Later w₀ (handler c w).2 := by
  cases c with
  | store c => exact ⟨h.clock, h.position⟩
  | memory c => cases c <;> exact ⟨h.clock, h.position⟩
  | env c => exact ⟨h.clock, Nat.le_succ_of_le h.position⟩

section Registration

variable {cp : ControlPlane} {key : PreAuthKey} {nodeKey : NodeKey} {w₀ : World}

def ExpiredBetween (cp : ControlPlane) (key : PreAuthKey) (w₀ w : World) : Prop :=
  Later w₀ w ∧ ∃ n, w₀.env.position ≤ n ∧ n < w.env.position ∧
    (key.expiration.any fun expiration =>
      cp.ext.isPast expiration (cp.ext.formatRfc3339 (w₀.env.clock n))) = true

theorem ExpiredBetween.call {w : World} (h : ExpiredBetween cp key w₀ w) (c : Call) :
    ExpiredBetween cp key w₀ (handler c w).2 := by
  obtain ⟨hlater, n, hstart, hend, hpast⟩ := h
  have hmono : w.env.position ≤ (handler c w).2.env.position :=
    (Later.call ⟨rfl, Nat.le_refl _⟩ c).position
  exact ⟨hlater.call c, n, hstart, Nat.lt_of_lt_of_le hend hmono, hpast⟩

structure Usable (cp : ControlPlane) (key : PreAuthKey) (nodeKey : NodeKey) (db : Db) : Prop where
  stable : db.Stable
  new : ∀ row ∈ db.nodes, row.nodeKey ≠ nodeKey
  key : db.getPreAuthKey key.keyPrefix = some key
  user : cp.config.userId ∈ db.users.map User.id

theorem Usable.key_user (h : Usable cp key nodeKey db) : key.userId ∈ db.users.map User.id :=
  db.valid.keyUsers key (List.mem_of_find?_eq_some h.key)

theorem Usable.keep {db' : Db} (h : Usable cp key nodeKey db) (hnodes : db'.nodes = db.nodes)
    (husers : db'.users = db.users) (hkey : db'.getPreAuthKey key.keyPrefix = some key) :
    Usable cp key nodeKey db' :=
  ⟨fun row hrow => h.stable row (hnodes ▸ hrow), hnodes ▸ h.new, hkey, husers ▸ h.user⟩

theorem Writable.usable (h : Writable cp db) (hkey : db.getPreAuthKey key.keyPrefix = some key)
    (hnew : db.getNodeByNodeKey nodeKey = none) : Usable cp key nodeKey db := by
  refine ⟨h.stable, Db.get_node_by_node_key_eq_none.mp hnew, hkey, h.grounded.user.resolve_left ?_⟩
  intro hnil
  have howner := db.valid.keyUsers key (List.mem_of_find?_eq_some hkey)
  rw [hnil] at howner
  cases howner

theorem ensure_user_usable (R : Db → Prop) :
    Yields (fun w => Usable cp key nodeKey w.db ∧ R w.db) cp.ensureUser
      (fun _ w => Usable cp key nodeKey w.db ∧ R w.db) (fun _ _ => False) := by
  unfold ensureUser
  refine triple_bind_read any_call_allows_quiet (reads_get_user _) (calls_store trivial)
    fun found => ?_
  cases found with
  | some user => exact triple_pure fun w hw => hw.1
  | none =>
    refine Triple.assume (φ := False) (fun w hw => ?_) False.elim
    have hsome := Db.get_user_is_some.mpr hw.1.1.user
    rw [hw.2] at hsome
    cases hsome

def LoginGrounded (cp : ControlPlane) (db : Db) : Prop :=
  db.logins = [] ∨ cp.config.loginId ∈ db.logins.map Login.id

theorem first_login_valid (login : Login) (hnil : db.logins = [])
    (huser : login.userId ∈ db.users.map User.id) (last : Nat) :
    Tables.Valid { db.toTables with logins := db.logins ++ [login], lastInsertRowid := last } := by
  rw [hnil]
  exact { db.valid with
    loginIds := List.nodup_singleton _
    loginSubjects := List.nodup_singleton _
    loginUsers := fun row hrow => List.mem_singleton.mp hrow ▸ huser }

theorem ensure_login_usable :
    Yields (fun w => Usable cp key nodeKey w.db ∧ LoginGrounded cp w.db)
      cp.ensureLogin (fun _ w => Usable cp key nodeKey w.db) (fun _ _ => False) := by
  unfold ensureLogin
  refine triple_bind_read any_call_allows_quiet (reads_get_login _) (calls_store trivial)
    fun found => ?_
  cases found with
  | some login => exact triple_pure fun w hw => hw.1.1
  | none =>
    have hnil : ∀ db : Db, LoginGrounded cp db → db.getLogin cp.config.loginId = none →
        db.logins = [] := by
      intro db hground hnone
      refine hground.resolve_right fun hmem => ?_
      have hsome := Db.get_login_is_some.mpr hmem
      rw [hnone] at hsome
      cases hsome
    refine Triple.bind (M := fun _ w => Usable cp key nodeKey w.db)
      (triple_store (fun _ _ => trivial) ?_ ?_) fun _ => triple_pure fun _ hw => hw
    · rintro w ⟨⟨husable, hground⟩, hnone⟩ login db hrun
      obtain ⟨htables, -⟩ := Db.statement_ok hrun
      refine husable.keep (by rw [htables]) (by rw [htables]) ?_
      unfold Db.getPreAuthKey
      rw [htables]
      exact husable.key
    · rintro w ⟨⟨husable, hground⟩, hnone⟩ error db hrun
      have hvalid := first_login_valid
        { id := if cp.config.loginId = 0 then nextRowid (w.db.logins.map Login.id)
            else cp.config.loginId
          userId := cp.config.userId, provider := "authkey", loginName := cp.config.userLoginName
          createdAt := controlTime } (hnil w.db hground hnone) husable.user
      cases (Db.statement_of_valid w.db (hvalid _) _).symm.trans hrun

theorem new_key_valid (row : PreAuthKey)
    (hid : row.id = nextRowid (db.preAuthKeys.map PreAuthKey.id))
    (hnew : db.getPreAuthKey row.keyPrefix = none) (huser : row.userId ∈ db.users.map User.id)
    (last : Nat) :
    Tables.Valid { db.toTables with
      preAuthKeys := db.preAuthKeys ++ [row], lastInsertRowid := last } := by
  refine { db.valid with keyIds := ?_, keyPrefixes := ?_, keyUsers := ?_ }
  · refine nodup_map_append db.valid.keyIds ?_
    rw [hid]
    exact Db.next_rowid_not_mem _
  · refine nodup_map_append db.valid.keyPrefixes fun hmem => ?_
    have hsome := Db.get_pre_auth_key_is_some.mpr hmem
    rw [hnew] at hsome
    cases hsome
  · exact List.forall_mem_append.mpr ⟨db.valid.keyUsers, List.forall_mem_singleton.mpr huser⟩

def UsableWithout (cp : ControlPlane) (key : PreAuthKey) (nodeKey : NodeKey) (keyPrefix : String)
    (db : Db) : Prop :=
  Usable cp key nodeKey db ∧ db.getPreAuthKey keyPrefix = none

theorem create_bootstrap_key_usable (keyPrefix secret : String) :
    Yields (fun w => UsableWithout cp key nodeKey keyPrefix w.db)
      (cp.createBootstrapKey keyPrefix secret) (fun _ w => Usable cp key nodeKey w.db)
      (fun _ _ => False) := by
  unfold createBootstrapKey
  refine Triple.bind (M := fun _ w => UsableWithout cp key nodeKey keyPrefix w.db)
    (triple_perform (fun _ _ => trivial) fun _ h => h) fun salt =>
    Triple.bind (M := fun _ w => UsableWithout cp key nodeKey keyPrefix w.db)
      (Triple.bind (triple_perform (fun _ _ => trivial) fun _ h => h) fun _ =>
        triple_pure fun _ h => h) fun now => ?_
  refine Triple.bind (M := fun _ w => Usable cp key nodeKey w.db)
    (triple_store (fun _ _ => trivial) ?_ ?_) fun _ => triple_pure fun _ hw => hw
  · rintro w ⟨husable, hnone⟩ row db hrun
    obtain ⟨htables, -⟩ := Db.statement_ok hrun
    refine husable.keep (by rw [htables]) (by rw [htables]) ?_
    unfold Db.getPreAuthKey
    rw [htables, List.find?_append]
    exact congrArg (Option.or · _) husable.key
  · rintro w ⟨husable, hnone⟩ error db hrun
    have hvalid := new_key_valid
      { id := nextRowid (w.db.preAuthKeys.map PreAuthKey.id), keyPrefix
        secretHash := hashSecret cp.ext salt secret, reusable := true, ephemeral := false
        expiration := none, revoked := false, used := false, tags := none
        userId := cp.config.userId, createdAt := now } rfl hnone husable.user
    cases (Db.statement_of_valid w.db (hvalid _) _).symm.trans hrun

theorem ensure_bootstrap_key_usable :
    Yields (fun w => Usable cp key nodeKey w.db) cp.ensureBootstrapKey
      (fun _ w => Usable cp key nodeKey w.db) (fun _ _ => False) := by
  unfold ensureBootstrapKey
  cases parseAuthKey cp.config.authKey with
  | none => exact triple_pure fun _ hw => hw
  | some parsed =>
    refine triple_bind_read any_call_allows_quiet (reads_get_pre_auth_key _) (calls_store trivial)
      fun found => ?_
    cases found with
    | none => exact create_bootstrap_key_usable _ _
    | some key => exact triple_pure fun _ hw => hw.1

theorem admit_node_usable (hid : node.id = 0) (hempty : node.stableId = "")
    (hkey : node.nodeKey = nodeKey) (huser : ∀ userId ∈ node.userId, userId = key.userId) :
    Yields (fun w => Usable cp key nodeKey w.db) (ControlPlane.admitNode node)
      (fun _ _ => True) (fun _ _ => False) := by
  refine Triple.bind (M := fun _ _ => True)
    (triple_store (fun _ _ => trivial) (fun _ _ _ _ _ => trivial) ?_) fun _ =>
      triple_perform (fun _ _ => trivial) fun _ _ => trivial
  intro w husable error db hrun
  obtain ⟨stored, db', hok⟩ := Db.upsert_new_ok husable.stable hid hempty (hkey ▸ husable.new)
    fun userId hmem => huser userId hmem ▸ husable.key_user
  cases hok.symm.trans hrun

theorem register_with_key_usable {machineKey : MachineKey} {request : RegisterRequest}
    (now : String) (htags : requestedTags request.hostinfo = []) (hreusable : key.reusable = true)
    (huntagged : key.tags = none) :
    Yields (fun w => Usable cp key request.nodeKey w.db)
      (cp.registerWithKey machineKey request now key)
      (fun response _ => response = cp.authorizedResponse)
        (fun error _ => error = .ipAllocation) := by
  unfold registerWithKey
  rw [if_neg (by simp [htags])]
  refine (create_node_spec any_call_allows_quiet machineKey request key.userId key.tags
    key.ephemeral now (Usable cp key request.nodeKey)).bind fun node => ?_
  refine triple_exists fun ipv4 => triple_exists fun ipv6 => Triple.assume (fun _ hw => hw.2.2) ?_
  rintro rfl
  refine Triple.bind (M := fun _ _ => True) ?_ fun _ => ?_
  · refine (admit_node_usable rfl rfl rfl fun userId hmem => ?_).weaken (fun _ hw => hw.1)
      (fun _ _ _ => trivial) fun _ _ h => h.elim
    rw [huntagged] at hmem
    exact (Option.some.inj hmem).symm
  · unfold consumeKey
    rw [if_neg (by simp [hreusable])]
    exact triple_pure fun _ _ => rfl

structure Accepted (cp : ControlPlane) (db : Db) (auth : RegisterAuth) (key : PreAuthKey) :
    Prop where
  stored : db.getPreAuthKey key.keyPrefix = some key
  secret : ∃ secret, parseAuthKey auth.authKey = some (key.keyPrefix, secret) ∧
    verifySecret cp.ext secret key.secretHash = true
  live : key.revoked = false
  reusable : key.reusable = true
  untagged : key.tags = none

theorem Accepted.valid_key {db' : Db} {auth : RegisterAuth} (h : Accepted cp db auth key)
    (hstored : db'.getPreAuthKey key.keyPrefix = some key) (now : String) :
    cp.validKey auth now db' =
      if key.expiration.any fun expiration => cp.ext.isPast expiration now then none
      else some key := by
  obtain ⟨secret, hparse, hverify⟩ := h.secret
  unfold validKey
  rw [hparse]
  dsimp only
  rw [hstored, Option.filter_some, keyAccepts, hverify, h.live, h.reusable]
  cases key.expiration.any fun expiration => cp.ext.isPast expiration now <;> rfl

/-- The outcome of a registration with a key: it succeeds, no address is found, or the key
expires on the way. -/
def Admitted (cp : ControlPlane) (key : PreAuthKey) (w₀ : World) (response : RegisterResponse)
    (w : World) : Prop :=
  response = cp.authorizedResponse ∨ ExpiredBetween cp key w₀ w

def NotAdmitted (cp : ControlPlane) (key : PreAuthKey) (w₀ : World) (error : ControlError)
    (w : World) : Prop :=
  error = .ipAllocation ∨ ExpiredBetween cp key w₀ w

/-- The state in which `register` decides, with the time it has read. -/
structure Deciding (cp : ControlPlane) (key : PreAuthKey) (nodeKey : NodeKey) (w₀ : World)
    (now : String) (w : World) : Prop where
  usable : Usable cp key nodeKey w.db
  later : Later w₀ w
  read : ∃ n, w₀.env.position ≤ n ∧ n < w.env.position ∧
    now = cp.ext.formatRfc3339 (w₀.env.clock n)

theorem Deciding.expired {now : String} {w : World} (h : Deciding cp key nodeKey w₀ now w)
    (hpast : (key.expiration.any fun expiration => cp.ext.isPast expiration now) = true) :
    ExpiredBetween cp key w₀ w := by
  obtain ⟨n, hstart, hend, rfl⟩ := h.read
  exact ⟨h.later, n, hstart, hend, hpast⟩

theorem register_new_usable {machineKey : MachineKey} {request : RegisterRequest}
    {auth : RegisterAuth} {now : String} (haccepted : Accepted cp w₀.db auth key)
    (hauth : request.auth = some auth) (hexpiry : request.expiry = "")
    (htags : requestedTags request.hostinfo = []) :
    Yields (Deciding cp key request.nodeKey w₀ now)
      (cp.registerNew machineKey request now) (Admitted cp key w₀) (NotAdmitted cp key w₀) := by
  unfold registerNew optionalAuthKey
  rw [hauth]
  dsimp only
  refine triple_bind_read any_call_allows_quiet (reads_validated_auth_key auth now)
    (validated_auth_key_quiet auth now) fun found => ?_
  rw [if_neg (by simp [hexpiry]), if_neg (by simp [hexpiry])]
  refine Triple.assume (φ := found =
      if key.expiration.any fun expiration => cp.ext.isPast expiration now then none else some key)
    (fun w hw => hw.2.symm.trans (haccepted.valid_key hw.1.usable.key now)) fun hfound => ?_
  split at hfound
  case isTrue hpast =>
    -- The key has expired: whatever happens now, the reading that says so stays.
    subst hfound
    exact (triple_any (fun w c hw => ExpiredBetween.call hw c) _).weaken
      (fun w hw => hw.1.expired hpast) (fun _ _ h => .inr h) fun _ _ h => .inr h
  case isFalse =>
    subst hfound
    exact (register_with_key_usable now htags haccepted.reusable haccepted.untagged).weaken
      (fun w hw => hw.1.usable) (fun _ _ h => .inl h) fun _ _ h => .inl h

theorem now_deciding :
    Yields (fun w => Usable cp key nodeKey w.db ∧ Later w₀ w) cp.nowRfc3339
      (Deciding cp key nodeKey w₀) (NotAdmitted cp key w₀) := by
  refine Triple.bind (M := fun now w => Deciding cp key nodeKey w₀ (cp.ext.formatRfc3339 now) w)
    (triple_perform (fun _ _ => trivial) fun w hw => ?_) fun _ => triple_pure fun _ h => h
  refine ⟨hw.1, hw.2.call _, w.env.position, hw.2.position, Nat.lt_succ_self _, ?_⟩
  change cp.ext.formatRfc3339 (w.env.clock w.env.position) = _
  rw [hw.2.clock]

theorem register_body_usable {machineKey : MachineKey} {request : RegisterRequest}
    {auth : RegisterAuth} (haccepted : Accepted cp w₀.db auth key)
    (hauth : request.auth = some auth) (hexpiry : request.expiry = "")
    (hfollowup : request.followup = "") (htags : requestedTags request.hostinfo = []) :
    Yields
      (fun w => (Usable cp key request.nodeKey w.db ∧ LoginGrounded cp w.db) ∧ Later w₀ w)
      (cp.registerBody machineKey request) (Admitted cp key w₀) (NotAdmitted cp key w₀) := by
  have hlater : ∀ w c, Later w₀ w → anyCall (S := signature) w c → Later w₀ (handler c w).2 :=
    fun w c h _ => h.call c
  have hensure : Yields
      (fun w => Usable cp key request.nodeKey w.db ∧ LoginGrounded cp w.db) cp.ensureDefaultUser
      (fun _ w => Usable cp key request.nodeKey w.db) (fun _ _ => False) :=
    (ensure_user_usable (LoginGrounded cp)).bind fun _ => ensure_login_usable
  unfold registerBody
  refine ((hensure.frame hlater).weaken (fun _ h => h) (fun _ _ h => h)
    fun _ _ h => h.1.elim).bind fun _ => ?_
  refine ((ensure_bootstrap_key_usable.frame hlater).weaken (fun _ h => h) (fun _ _ h => h)
    fun _ _ h => h.1.elim).bind fun _ => ?_
  refine now_deciding.bind fun now => ?_
  rw [if_neg (by simp [hfollowup])]
  refine triple_bind_read any_call_allows_quiet (reads_get_node_by_node_key request.nodeKey)
    (calls_store trivial) fun found => ?_
  cases found with
  | none =>
    exact (register_new_usable haccepted hauth hexpiry htags).pre fun _ hw => hw.1
  | some node =>
    refine Triple.assume (φ := False) (fun w hw => ?_) False.elim
    obtain ⟨hmem, hkey⟩ := Db.get_node_by_node_key_eq_some.mp hw.2
    exact hw.1.usable.new node hmem hkey

/-- In every store reached from an empty one by operations whose followups complete over the last
insert only, a new node with a valid, reusable and untagged key is registered unless no address is
found or the key expires at a reading of the clock that the call makes. -/
theorem registration_never_wedges (hids : cp.HasIds) {env : Env} {w : World}
    (hrun : Runs cp LastInsertFollowups (fun _ => True) (cp.withStore Db.empty env) w)
    {machineKey : MachineKey} {request : RegisterRequest} {auth : RegisterAuth}
    (hnew : w.db.getNodeByNodeKey request.nodeKey = none) (hexpiry : request.expiry = "")
    (hfollowup : request.followup = "") (htags : requestedTags request.hostinfo = [])
    (hauth : request.auth = some auth) (haccepted : Accepted cp w.db auth key)
    (hunexpired : ¬ExpiredBetween cp key w (exec (cp.register machineKey request) w).2) :
    ∃ response w', exec (cp.register machineKey request) w = (.ok response, w') ∧
      (response = cp.authorizedResponse ∨
        response = { error := ControlError.ipAllocation.display }) := by
  have hwritable := hrun.writable hids
  have hspec : Yields
      (fun w' => (Usable cp key request.nodeKey w'.db ∧ LoginGrounded cp w'.db) ∧ Later w w')
      (cp.register machineKey request)
      (fun response w' => (response = cp.authorizedResponse ∨
        response = { error := ControlError.ipAllocation.display }) ∨ ExpiredBetween cp key w w')
      (fun _ _ => False) := by
    unfold register
    refine (register_body_usable haccepted hauth hexpiry hfollowup htags).attempt.bind
      fun result => ?_
    cases result with
    | ok response => exact triple_pure fun _ h => h.imp_left Or.inl
    | error error =>
      refine triple_pure fun _ h => h.imp_left fun herror => .inr ?_
      rw [herror]
  obtain ⟨response, w', hresult, hend⟩ := hspec.total
    ⟨⟨hwritable.usable haccepted.stored hnew, hwritable.grounded.login⟩,
      ⟨rfl, Nat.le_refl w.env.position⟩⟩
  rw [exec, hresult] at hunexpired
  exact ⟨response, w', hresult, hend.resolve_right hunexpired⟩

end Registration

def configuredKey : PreAuthKey where
  id := 1
  keyPrefix := "test"
  secretHash := hashSecret openServer.ext [] "secret"
  reusable := true
  ephemeral := false
  expiration := none
  revoked := false
  used := false
  tags := none
  userId := 1
  createdAt := ""

def oneNode : World := registerFirst.exec openServer (openServer.withStore Db.empty stillEnv)

theorem configured_key_accepted :
    Accepted openServer oneNode.db { authKey := "hskey-auth-test-secret" } configuredKey where
  stored := by decide +kernel
  secret := ⟨"secret", by decide +kernel, by decide +kernel⟩
  live := rfl
  reusable := rfl
  untagged := rfl

/-- After the first node, a second one registers. -/
theorem registration_never_wedges_second :
    ∃ response w', exec (openServer.register ⟨2⟩ (registerRequest 2)) oneNode = (.ok response, w') ∧
      (response = openServer.authorizedResponse ∨
        response = { error := ControlError.ipAllocation.display }) := by
  have hfollowups : LastInsertFollowups (openServer.withStore Db.empty stillEnv) registerFirst := by
    rintro row ⟨authId, entry, userId, tags, -, hentry, -⟩
    cases hentry
  have hrun : Runs openServer LastInsertFollowups (fun _ => True)
      (openServer.withStore Db.empty stillEnv) oneNode := .step (.refl trivial) hfollowups trivial
  refine registration_never_wedges ⟨by decide, by decide⟩ hrun (by decide +kernel) rfl rfl
    (by decide +kernel)
    rfl configured_key_accepted ?_
  rintro ⟨-, n, -, -, hpast⟩
  cases hpast

/-! ## A followup that leaves an empty stable id -/

/-- The first node logs out and asks to register again, a second node registers, and then the first
one's registration is approved and followed up. -/
def wedged : World :=
  runOps openServer
    [registerFirst, .logout ⟨1⟩ ⟨1⟩, askFor 1 1, .register ⟨2⟩ (registerRequest 2), approve,
      followUp 1 1]
    (openServer.withStore Db.empty stillEnv)

/-- The first node's row has no stable id then, and a new node cannot be registered. -/
theorem registration_wedged :
    wedged.db.nodes.map (fun row => (row.id, row.stableId)) =
        [(1, ""), (2, "n00000000000000000000002")] ∧
      wedged.db.getNodeByNodeKey ⟨3⟩ = none ∧
      openServer.validKey { authKey := "hskey-auth-test-secret" } "" wedged.db =
        some configuredKey ∧
      (exec (openServer.register ⟨3⟩ (registerRequest 3)) wedged).1.toOption = some
        { error := "store error: sqlite error: UNIQUE constraint failed: nodes.stable_id" } := by
  decide +kernel

end Crabscale.Control
