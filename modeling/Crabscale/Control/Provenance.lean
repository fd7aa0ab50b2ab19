import Crabscale.Control.Ownership

/-!
# Where the tags of a node come from

Tags come from the pre-auth key, from the verdict of an approved registration, and from the requests
of the machine. `no_tag_escalation` follows them back through every run from an empty store: the
default user may use them, or the login of an approval, or a login that owned the node.
-/

namespace Crabscale.Control

open Rust Proto Policy Interaction

variable {cp : ControlPlane} {op : Op} {w₀ w : World}

/-! ## Histories -/

abbrev Past : Type := List (World × Op)

inductive Ran (cp : ControlPlane) (start : World) : Past → World → Prop where
  | nil : Ran cp start [] start
  | step {past : Past} {w : World} (op : Op) : Ran cp start past w →
      Ran cp start (past ++ [(w, op)]) (op.exec cp w)

def Approver (past : Past) (login : String) : Prop :=
  ∃ w op authId, (w, op) ∈ past ∧ op.Approves w authId login

def PastOwner (past : Past) (node : Node) (login : String) : Prop :=
  ∃ w op row, (w, op) ∈ past ∧ row ∈ w.db.nodes ∧ row.id = node.id ∧ row.nodeKey = node.nodeKey ∧
    row.machineKey = node.machineKey ∧ w.ownerLogin row = some login

def Granted (cp : ControlPlane) (past : Past) (node : Node) (tag : String) : Prop :=
  ∃ login, userCanUseTag cp.config.policy tag login = true ∧
    (login = cp.config.userLoginName ∨ Approver past login ∨ PastOwner past node login)

variable {past : Past}

theorem Approver.mono {past' : Past} {login : String} (h : Approver past login)
    (hsub : past ⊆ past') : Approver past' login := by
  obtain ⟨w, op, authId, hmem, happroves⟩ := h
  exact ⟨w, op, authId, hsub hmem, happroves⟩

theorem PastOwner.mono {past' : Past} {node : Node} {login : String}
    (h : PastOwner past node login) (hsub : past ⊆ past') : PastOwner past' node login := by
  obtain ⟨w, op, row, hmem, hrow⟩ := h
  exact ⟨w, op, row, hsub hmem, hrow⟩

variable {tag : String}

theorem Granted.mono {past' : Past} {node : Node}
    (h : Granted cp past node tag) (hsub : past ⊆ past') : Granted cp past' node tag := by
  obtain ⟨login, huse, hlogin⟩ := h
  exact ⟨login, huse, hlogin.imp_right (.imp (·.mono hsub) (·.mono hsub))⟩

theorem Granted.same {node node' : Node} (h : Granted cp past node tag)
    (hid : node'.id = node.id) (hkey : node'.nodeKey = node.nodeKey)
    (hmachine : node'.machineKey = node.machineKey) : Granted cp past node' tag := by
  obtain ⟨login, huse, hlogin⟩ := h
  refine ⟨login, huse, hlogin.imp_right (.imp_right ?_)⟩
  rintro ⟨w, op, row, hmem, hrow, hids⟩
  exact ⟨w, op, row, hmem, hrow, by rw [hid, hkey, hmachine]; exact hids⟩

/-! ## The invariant -/

/-- The tags of nodes are granted, the default user may use those of keys, and an approval may use
those of verdicts. -/
structure TagsGranted (cp : ControlPlane) (past : Past) (db : Db) : Prop where
  rows : ∀ row ∈ db.nodes, ∀ tag ∈ row.tags.getD [], Granted cp past row tag
  keys : ∀ key ∈ db.preAuthKeys, ∀ tag ∈ key.tags.getD [],
    userCanUseTag cp.config.policy tag cp.config.userLoginName = true
  verdicts : ∀ row ∈ db.pending, ∀ userId tags, row.entry.verdict = .approved userId tags →
    ∀ tag ∈ tags.getD [], ∃ login, userCanUseTag cp.config.policy tag login = true ∧
      Approver past login

theorem TagsGranted.mono {past' : Past} {db : Db} (h : TagsGranted cp past db)
    (hsub : past ⊆ past') : TagsGranted cp past' db where
  rows row hrow tag htag := (h.rows row hrow tag htag).mono hsub
  keys := h.keys
  verdicts row hrow userId tags hverdict tag htag := by
    obtain ⟨login, huse, happrover⟩ := h.verdicts row hrow userId tags hverdict tag htag
    exact ⟨login, huse, happrover.mono hsub⟩

theorem mem_approved_tags {entry : PendingRegistration}
    (h : tag ∈ (approvedTags entry).getD []) : tag ∈ requestedTags entry.hostinfo := by
  unfold approvedTags at h
  split at h
  · cases h
  · exact h

section Call

variable {past : Past}

theorem KeyPresented.granted {machineKey : MachineKey} {request : RegisterRequest}
    {key : PreAuthKey}
    (h : KeyPresented cp op w₀ machineKey request key) (hgranted : TagsGranted cp past w₀.db)
    (htag : tag ∈ key.tags.getD []) (node : Node) : Granted cp past node tag := by
  obtain hstored | hplain := h.stored_or_plain
  · exact ⟨_, hgranted.keys key hstored tag htag, .inl rfl⟩
  · rw [hplain] at htag
    cases htag

theorem Retagged.granted {row node row' : Node} (h : Retagged cp w₀ row node)
    (hstart : row ∈ w₀.db.nodes) (hnow : (w₀, op) ∈ past)
    (hrow : ∀ tag ∈ row.tags.getD [], Granted cp past row tag) (hid : row'.id = row.id)
    (hkey : row'.nodeKey = row.nodeKey) (hmachine : row'.machineKey = row.machineKey)
    (htag : tag ∈ node.tags.getD []) : Granted cp past row' tag := by
  cases h with
  | kept htags _ => exact (hrow tag (htags ▸ htag)).same hid hkey hmachine
  | dropped _ htags _ =>
    rw [htags] at htag
    cases htag
  | named _ hallowed htags _ =>
    rw [htags] at htag
    obtain ⟨login, howner, huse⟩ := can_use_of_unauthorized_nil hallowed htag
    exact ⟨login, huse, .inr (.inr ⟨w₀, op, row, hnow, hstart, hid.symm, hkey.symm, hmachine.symm,
      howner⟩)⟩

theorem NodeAct.granted {node row' : Node} (h : NodeAct cp op w₀ w node)
    (hnow : (w₀, op) ∈ past) (hgranted₀ : TagsGranted cp past w₀.db)
    (hgranted : TagsGranted cp past w.db) (hwritten : row' ∈ (w.db.upsertNode node).2.nodes)
    {id : Nat} {stableId : String} (hrow' : row' = { node with id, stableId })
    (htag : tag ∈ node.tags.getD []) : Granted cp past row' tag := by
  cases h with
  | @edit row hstart hrow hedit =>
    have hkey : row'.nodeKey = node.nodeKey := by rw [hrow']
    have hid := Db.id_upsert_existing hrow hedit.same.nodeKey.symm hwritten hkey
    exact hedit.tags.granted hstart hnow (hgranted.rows row hrow) hid
      (hkey.trans hedit.same.nodeKey) (by rw [hrow']; exact hedit.same.machineKey) htag
  | reauthorize hkey _ _ _ _ _ hnode =>
    subst hnode
    exact hkey.granted hgranted₀ htag row'
  | enroll hkey _ _ _ hnode =>
    subst hnode
    exact hkey.granted hgranted₀ htag row'
  | complete happroved _ _ _ _ hnode =>
    subst hnode
    obtain ⟨request, authId, -, -, hentry⟩ := happroved.op
    obtain ⟨-, row, hrow, rfl⟩ := Db.get_pending_eq_some.mp hentry
    obtain ⟨login, huse, happrover⟩ := hgranted₀.verdicts row hrow _ _ happroved.verdict tag htag
    exact ⟨login, huse, .inr (.inl happrover)⟩

theorem TagsGranted.call {c : Call} (hnow : (w₀, op) ∈ past) (hgranted₀ : TagsGranted cp past w₀.db)
    (h : TagsGranted cp past w.db) (hc : Acts cp op w₀ w c) :
    TagsGranted cp past (handler c w).2.db where
  rows row hrow tag htag := by
    obtain ⟨stored, hstored, stableId, rfl⟩ | ⟨node, id, stableId, rfl, hrow'⟩ :=
      Call.mem_nodes hrow
    · exact h.rows stored hstored tag htag
    · rw [hrow'] at htag
      exact NodeAct.granted hc hnow hgranted₀ h hrow hrow' htag
  keys key hkey tag htag := by
    obtain ⟨stored, hstored, revoked, used, rfl⟩ | ⟨new, id, rfl, rfl⟩ :=
      Call.mem_pre_auth_keys hkey
    · exact h.keys stored hstored tag htag
    change tag ∈ new.tags.getD [] at htag
    cases hc with
    | bootstrap htags =>
      rw [htags] at htag
      cases htag
    | create _ hallowed =>
      obtain ⟨login, hlogin, huse⟩ := can_use_of_unauthorized_nil hallowed htag
      cases hlogin
      exact huse
  verdicts row hrow userId tags hverdict tag htag := by
    obtain ⟨stored, hstored, hentry⟩ | rfl := Call.mem_pending hrow
    · exact h.verdicts stored hstored userId tags (hentry ▸ hverdict) tag htag
    cases hc with
    | start _ _ _ hpending _ =>
      rw [hpending] at hverdict
      cases hverdict
    | approve hop _ _ _ hallowed hentry =>
      rw [hentry] at hverdict
      cases hverdict
      have hrequested : tag ∈ requestedTags _ := mem_approved_tags htag
      obtain ⟨login, hlogin, huse⟩ := can_use_of_unauthorized_nil hallowed hrequested
      cases hlogin
      exact ⟨_, huse, w₀, op, _, hnow, hop⟩
    | reject _ _ hentry =>
      rw [hentry] at hverdict
      cases hverdict

end Call

/-! ## Runs -/

theorem tags_granted_empty : TagsGranted cp [] Db.empty :=
  ⟨List.forall_mem_nil _, List.forall_mem_nil _, List.forall_mem_nil _⟩

theorem TagsGranted.step (h : TagsGranted cp past w.db) :
    TagsGranted cp (past ++ [(w, op)]) (op.exec cp w).db := by
  have h := h.mono (List.subset_append_left past [(w, op)])
  have hnow : (w, op) ∈ past ++ [(w, op)] := List.mem_append_right _ List.mem_cons_self
  exact Op.keeps_world (I := fun w' => TagsGranted cp (past ++ [(w, op)]) w'.db)
    (fun _ _ hw hc => TagsGranted.call hnow h hw hc) h

/-- In every run from an empty store, a tag of a stored node may be used by the default user, by a
login that a registration was approved for, or by a login that owned the node. -/
theorem no_tag_escalation {env : Env} {past : Past} {w : World}
    (hrun : Ran cp (cp.withStore Db.empty env) past w) {row : Node} (hrow : row ∈ w.db.nodes)
    {tag : String} (htag : tag ∈ row.tags.getD []) :
    ∃ login, userCanUseTag cp.config.policy tag login = true ∧
      (login = cp.config.userLoginName ∨ Approver past login ∨ PastOwner past row login) := by
  have hgranted : TagsGranted cp past w.db := by
    clear hrow
    induction hrun with
    | nil => exact tags_granted_empty
    | step op _ ih => exact ih.step
  exact hgranted.rows row hrow tag htag

def createTaggedKey : Op := .createPreAuthKey "web" true false none (some ["tag:web"])

def taggedKey : World :=
  createTaggedKey.exec taggingServer (taggingServer.withStore Db.empty stillEnv)

def taggedNode : World := (registerWith "web" 1 1).exec taggingServer taggedKey

theorem first_node_tagged :
    firstNode taggedNode ∈ taggedNode.db.nodes ∧
      (firstNode taggedNode).tags = some ["tag:web"] := by
  decide +kernel

/-- Somebody may use the tag of the node. -/
theorem no_tag_escalation_tagged :
    ∃ login, userCanUseTag taggingServer.config.policy "tag:web" login = true ∧
      (login = taggingServer.config.userLoginName ∨
        Approver [(taggingServer.withStore Db.empty stillEnv, createTaggedKey),
          (taggedKey, registerWith "web" 1 1)] login ∨
        PastOwner [(taggingServer.withStore Db.empty stillEnv, createTaggedKey),
          (taggedKey, registerWith "web" 1 1)] (firstNode taggedNode) login) :=
  no_tag_escalation (.step _ (.step _ .nil)) first_node_tagged.1
    (by rw [first_node_tagged.2]; exact List.mem_singleton.mpr rfl)

end Crabscale.Control
