import Crabscale.Control.Authorization

/-!
# Owners and tags

A node belongs to a user or carries tags. A pre-auth key with an empty list of tags breaks this, and
so does a key that authorizes a node again (`ownership_broken`). `ownership_kept`: these are the
only ways, in runs from an empty store.
-/

namespace Crabscale.Control

open Rust Proto Policy Interaction

variable {cp : ControlPlane} {op : Op} {w₀ w : World}

def Node.OwnerOrTags (node : Node) : Prop :=
  (node.userId = none ↔ node.tags.any (· ≠ []) = true) ∧ node.tags ≠ some []

instance (node : Node) : Decidable node.OwnerOrTags := inferInstanceAs (Decidable (_ ∧ _))

theorem Node.OwnerOrTags.untagged {node : Node} (howner : node.userId ≠ none)
    (htags : node.tags = none) : node.OwnerOrTags := by
  rw [OwnerOrTags, htags]
  exact ⟨⟨fun h => (howner h).elim, fun h => by cases h⟩, fun h => by cases h⟩

theorem Node.OwnerOrTags.tagged {node : Node} {tags : List String} (howner : node.userId = none)
    (hne : tags ≠ []) (htags : node.tags = some tags) : node.OwnerOrTags := by
  rw [OwnerOrTags, htags, howner]
  exact ⟨⟨fun _ => by simp [hne], fun _ => rfl⟩, fun h => hne (Option.some.inj h)⟩

/-! ## The condition -/

/-- A stored pre-auth key that the credentials of a request open: the secret is right, and the key
is neither revoked nor used up. -/
def OpensKey (cp : ControlPlane) (db : Db) (request : RegisterRequest) (key : PreAuthKey) : Prop :=
  ∃ auth keyPrefix secret, request.auth = some auth ∧
    parseAuthKey auth.authKey = some (keyPrefix, secret) ∧
    db.getPreAuthKey keyPrefix = some key ∧ verifySecret cp.ext secret key.secretHash = true ∧
    key.revoked = false ∧ (key.reusable = false → key.used = false)

/-- No key is created with an empty list of tags, and a machine that registers a logged-out node
again does so with a key that has tags exactly when the node has no owner. -/
def SuitableKeys (cp : ControlPlane) (w : World) : Op → Prop
  | .createPreAuthKey _ _ _ _ tags => tags ≠ some []
  | .register machineKey request => request.followup = "" → ∀ row key,
      w.db.getNodeByNodeKey request.nodeKey = some row → row.machineKey = machineKey →
      row.machineAuthorized = false → OpensKey cp w.db request key →
      (row.userId = none ↔ key.tags.any (· ≠ []) = true)
  | _ => True

/-! ## The invariant -/

/-- Rows have owners or tags, no key and no verdict has an empty list of tags, and the configured
key is there when nodes are. -/
structure TagsSound (cp : ControlPlane) (db : Db) : Prop where
  rows : ∀ row ∈ db.nodes, row.OwnerOrTags
  keys : ∀ key ∈ db.preAuthKeys, key.tags ≠ some []
  verdicts : ∀ row ∈ db.pending, ∀ userId tags, row.entry.verdict = .approved userId tags →
    tags ≠ some []
  configured : db.nodes ≠ [] → KeyConfigured cp db

theorem KeyPresented.opens {machineKey : MachineKey} {request : RegisterRequest} {key : PreAuthKey}
    (h : KeyPresented cp op w₀ machineKey request key) (hconfigured : KeyConfigured cp w₀.db) :
    OpensKey cp w₀.db request key := by
  obtain ⟨auth, keyPrefix, secret, hauth, hparse, hstored, haccepts⟩ := h.accepts
  refine ⟨auth, keyPrefix, secret, hauth, hparse, ?_, haccepts.secret, haccepts.live,
    haccepts.unused⟩
  unfold Db.getPreAuthKey at hstored ⊢
  rwa [h.bootstrap.same_keys hconfigured] at hstored

theorem KeyPresented.tags_ne {machineKey : MachineKey} {request : RegisterRequest}
    {key : PreAuthKey}
    (h : KeyPresented cp op w₀ machineKey request key) (hsound : TagsSound cp w₀.db) :
    key.tags ≠ some [] := by
  obtain hstored | hplain := h.stored_or_plain
  · exact hsound.keys key hstored
  · rw [hplain]
    exact fun h => by cases h

theorem owner_or_tags_new_node {machineKey : MachineKey} {request : RegisterRequest} {userId : Nat}
    {tags : Option (List String)} {ephemeral : Bool} {now : String} {ipv4 : Ipv4Addr}
    {ipv6 : Ipv6Addr} (htags : tags ≠ some []) :
    (cp.newNode machineKey request userId tags ephemeral now ipv4 ipv6).OwnerOrTags := by
  refine ⟨?_, htags⟩
  change (if tags.any (· ≠ []) = true then none else some userId) = none ↔ tags.any (· ≠ []) = true
  split
  case isTrue h => exact ⟨fun _ => h, fun _ => rfl⟩
  case isFalse h => exact ⟨fun hnone => (by cases hnone), fun htagged => (h htagged).elim⟩

theorem Retagged.owner_or_tags {row node : Node} (h : Retagged cp w row node)
    (hrow : row.OwnerOrTags) : node.OwnerOrTags := by
  cases h with
  | kept htags howner =>
    rw [Node.OwnerOrTags, htags, howner]
    exact hrow
  | dropped hsome htags howner =>
    refine .untagged ?_ htags
    rw [howner]
    exact Option.isSome_iff_ne_none.mp hsome
  | named hne _ htags howner => exact .tagged howner hne htags

theorem NodeAct.owner_or_tags {node : Node} (h : NodeAct cp op w₀ w node)
    (hsuitable : SuitableKeys cp w₀ op) (hsound₀ : TagsSound cp w₀.db)
    (hsound : TagsSound cp w.db) : node.OwnerOrTags := by
  cases h with
  | edit _ hrow hedit => exact hedit.tags.owner_or_tags (hsound.rows _ hrow)
  | @reauthorize machineKey request key row hkey hrow hnodes hnodeKey hmachine hnot hnode =>
    subst hnode
    have hrow₀ : row ∈ w₀.db.nodes := hnodes ▸ hrow
    have hopens := hkey.opens (hsound₀.configured (List.ne_nil_of_mem hrow₀))
    obtain rfl := hkey.op
    have hfound := Db.get_node_by_node_key_eq_some.mpr ⟨hrow₀, hnodeKey⟩
    exact ⟨hsuitable hkey.followup row key hfound hmachine hnot hopens, hkey.tags_ne hsound₀⟩
  | enroll hkey _ _ _ hnode =>
    subst hnode
    exact owner_or_tags_new_node (hkey.tags_ne hsound₀)
  | complete happroved _ _ _ _ hnode =>
    subst hnode
    obtain ⟨request, authId, -, -, hentry⟩ := happroved.op
    obtain ⟨-, row, hrow, rfl⟩ := Db.get_pending_eq_some.mp hentry
    exact owner_or_tags_new_node (hsound₀.verdicts row hrow _ _ happroved.verdict)

theorem approved_tags_ne (entry : PendingRegistration) : approvedTags entry ≠ some [] := by
  unfold approvedTags
  split
  · exact fun h => by cases h
  case isFalse hne => exact fun h => hne (Option.some.inj h)

theorem TagsSound.call {c : Call} (hsuitable : SuitableKeys cp w₀ op) (hsound₀ : TagsSound cp w₀.db)
    (h : TagsSound cp w.db) (hc : Acts cp op w₀ w c) : TagsSound cp (handler c w).2.db where
  rows row hrow := by
    obtain ⟨stored, hstored, stableId, rfl⟩ | ⟨node, id, stableId, rfl, rfl⟩ := Call.mem_nodes hrow
    · exact h.rows stored hstored
    · have hnode : node.OwnerOrTags := NodeAct.owner_or_tags hc hsuitable hsound₀ h
      exact hnode
  keys key hkey := by
    obtain ⟨stored, hstored, revoked, used, rfl⟩ | ⟨new, id, rfl, rfl⟩ :=
      Call.mem_pre_auth_keys hkey
    · exact h.keys stored hstored
    cases hc with
    | bootstrap htags =>
      change new.tags ≠ some []
      rw [htags]
      exact fun h => by cases h
    | create hop _ =>
      subst hop
      exact hsuitable
  verdicts row hrow userId tags hverdict := by
    obtain ⟨stored, hstored, hentry⟩ | rfl := Call.mem_pending hrow
    · exact h.verdicts stored hstored userId tags (hentry ▸ hverdict)
    cases hc with
    | start _ _ _ hpending _ =>
      rw [hpending] at hverdict
      cases hverdict
    | approve _ _ _ _ _ hentry =>
      rw [hentry] at hverdict
      cases hverdict
      exact approved_tags_ne _
    | reject _ _ hentry =>
      rw [hentry] at hverdict
      cases hverdict
  configured hnodes := by
    refine KeyConfigured.keep ?_ (c.key_prefixes_subset w)
    obtain ⟨row, hrow⟩ := List.exists_mem_of_ne_nil _ hnodes
    obtain ⟨stored, hstored, -⟩ | ⟨node, id, stableId, rfl, -⟩ := Call.mem_nodes hrow
    · exact h.configured (List.ne_nil_of_mem hstored)
    cases hc with
    | edit _ hrow _ => exact h.configured (List.ne_nil_of_mem hrow)
    | reauthorize _ hrow _ _ _ _ _ => exact h.configured (List.ne_nil_of_mem hrow)
    | enroll _ hconfigured _ _ _ => exact hconfigured.key
    | complete _ hconfigured _ _ _ _ => exact hconfigured.key

/-! ## Runs -/

theorem tags_sound_empty : TagsSound cp Db.empty :=
  ⟨List.forall_mem_nil _, List.forall_mem_nil _, List.forall_mem_nil _, fun h => (h rfl).elim⟩

theorem TagsSound.step (hsuitable : SuitableKeys cp w op) (h : TagsSound cp w.db) :
    TagsSound cp (op.exec cp w).db :=
  Op.keeps_world (I := fun w => TagsSound cp w.db)
    (fun _ _ hw hc => TagsSound.call hsuitable h hw hc) h

/-- In every run from an empty store in which keys are suitable, every node has either an owner or
tags, and no node has an empty list of tags. -/
theorem ownership_kept {env : Env} {w : World}
    (hrun : Runs cp (SuitableKeys cp) (fun _ => True) (cp.withStore Db.empty env) w) {row : Node}
    (hrow : row ∈ w.db.nodes) : row.OwnerOrTags := by
  have hsound : TagsSound cp w.db := by
    clear hrow
    induction hrun with
    | refl _ => exact tags_sound_empty
    | step _ hsuitable _ ih => exact ih.step hsuitable
  exact hsound.rows row hrow

def loggedOutNode : World :=
  runOps openServer [registerFirst, .logout ⟨1⟩ ⟨1⟩] (openServer.withStore Db.empty stillEnv)

theorem suitable_register_first : SuitableKeys openServer loggedOutNode registerFirst := by
  have howned : (loggedOutNode.db.getNodeByNodeKey ⟨1⟩).all (·.userId ≠ none) = true := by
    decide +kernel
  have hplain : loggedOutNode.db.preAuthKeys.all (·.tags = none) = true := by decide +kernel
  rintro - row key hrow - - ⟨auth, keyPrefix, secret, -, -, hkey, -⟩
  rw [show loggedOutNode.db.getNodeByNodeKey ⟨1⟩ = some row from hrow] at howned
  have htags := List.all_eq_true.mp hplain key (List.mem_of_find?_eq_some hkey)
  rw [of_decide_eq_true htags]
  exact ⟨fun hnone => (of_decide_eq_true howned hnone).elim, fun h => by cases h⟩

theorem suitable_on_empty_store :
    SuitableKeys openServer (openServer.withStore Db.empty stillEnv) registerFirst := by
  rintro - row key hrow
  cases hrow

/-- A node that logged out is authorized again and keeps its owner. -/
theorem ownership_kept_again :
    (firstNode (registerFirst.exec openServer loggedOutNode)).OwnerOrTags := by
  have hlogout : Runs openServer (SuitableKeys openServer) (fun _ => True)
      (openServer.withStore Db.empty stillEnv)
      ((Op.logout ⟨1⟩ ⟨1⟩).exec openServer
        (registerFirst.exec openServer (openServer.withStore Db.empty stillEnv))) :=
    .step (.step (.refl trivial) suitable_on_empty_store trivial) trivial trivial
  have hrow : firstNode (registerFirst.exec openServer loggedOutNode) ∈
      (registerFirst.exec openServer loggedOutNode).db.nodes := by decide +kernel
  exact ownership_kept (.step hlogout suitable_register_first trivial) hrow

def taggingServer : ControlPlane :=
  { openServer with
    config.policy :=
      { openServer.config.policy with
        tagOwners := BTreeMap.from [("tag:web", ["owner@example.com"])] } }

def registerWith (keyPrefix : String) (machine key : Nat) : Op :=
  .register ⟨machine⟩
    { version := 113
      nodeKey := ⟨key⟩
      auth := some { authKey := formatAuthKey keyPrefix "token" } }

def emptyTags : World :=
  runOps openServer [.createPreAuthKey "none" true false none (some []), registerWith "none" 1 1]
    (openServer.withStore Db.empty stillEnv)

def taggedAgain : World :=
  runOps taggingServer
    [.register ⟨1⟩ (registerRequest 1), .createPreAuthKey "web" true false none (some ["tag:web"]),
      .logout ⟨1⟩ ⟨1⟩, registerWith "web" 1 1]
    (taggingServer.withStore Db.empty stillEnv)

/-- A node has an empty list of tags, and another one has an owner and a tag. -/
theorem ownership_broken :
    emptyTags.db.nodes.map Node.tags = [some []] ∧
      taggedAgain.db.nodes.map (fun node => (node.userId, node.tags)) =
        [(some 1, some ["tag:web"])] ∧
      ¬(∀ row ∈ emptyTags.db.nodes, row.OwnerOrTags) ∧
      ¬(∀ row ∈ taggedAgain.db.nodes, row.OwnerOrTags) := by
  decide +kernel

end Crabscale.Control
