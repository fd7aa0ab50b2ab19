import Crabscale.Control.KeyBinding

/-!
# The protocol of a registration that presents a key

`register` looks a key up, writes the node row and marks the key used, in three calls to the store.
`register_obeys`: whatever the store answers, it authorizes its own row only, at most once, after it
found the key usable, and it marks the key before it ends.
-/

namespace Crabscale.Control

open Rust Proto Policy Interaction Interaction.Program ControlPlane

/-! ## How far a registration has got -/

inductive KeyPhase where
  /-- It has not found the key usable. -/
  | before
  /-- It registers a row that is authorized already. -/
  | known
  /-- It found the key usable. -/
  | holding (key : PreAuthKey)
  /-- It authorized its row with the key. -/
  | wrote (key : PreAuthKey)
  /-- It marked the key used. -/
  | finished
  deriving DecidableEq

namespace KeyPhase

def holds : KeyPhase → Bool
  | holding _ | wrote _ => true
  | before | known | finished => false

def admitted : KeyPhase → Bool
  | wrote _ | finished => true
  | before | known | holding _ => false

def Searching (φ : KeyPhase) : Prop := φ = before ∨ ∃ key, φ = holding key

def found (φ : KeyPhase) (key : PreAuthKey) : KeyPhase :=
  match φ with
  | before | holding _ => if !key.reusable && key.used then φ else holding key
  | known | wrote _ | finished => φ

def sawRow (φ : KeyPhase) (row : Node) : KeyPhase :=
  match φ with
  | before | holding _ => if row.machineAuthorized then known else φ
  | known | wrote _ | finished => φ

def authorized : KeyPhase → KeyPhase
  | holding key => wrote key
  | φ => φ

def marked : KeyPhase → KeyPhase
  | wrote _ => finished
  | φ => φ

def afterStore (φ : KeyPhase) (keyPrefix : String) : (c : StoreCall) → Except StoreError c.Result →
    KeyPhase
  | .getPreAuthKey asked, .ok (some key) => if asked = keyPrefix then φ.found key else φ
  | .getNodeByNodeKey _, .ok (some row) => φ.sawRow row
  | .upsertNode node, .ok _ => if node.machineAuthorized then φ.authorized else φ
  | .markPreAuthKeyUsed _, _ => φ.marked
  | _, _ => φ

/-- Whether a registration of a node key may write a row in a phase: before it holds the key, only
to deauthorize it, and at most once after that. -/
def mayWrite (nodeKey : NodeKey) (node : Node) : KeyPhase → Prop
  | before => node.nodeKey = nodeKey ∧ node.machineAuthorized = false
  | known | holding _ => node.nodeKey = nodeKey
  | wrote _ | finished => False

end KeyPhase

def AnswersKey (asked : NodeKey) : Except StoreError (Option Node) → Prop
  | .ok (some row) => row.nodeKey = asked
  | .ok none | .error _ => True

def keyProtocol (keyPrefix : String) (nodeKey : NodeKey) : Protocol signature KeyPhase where
  allowed φ
    | .store (.upsertNode node) => φ.mayWrite nodeKey node
    | .store (.deleteNode deleted) => deleted = nodeKey
    | .store (.getNodeByNodeKey asked) => asked = nodeKey
    | .store (.markPreAuthKeyUsed id) => ∃ key, φ = .wrote key ∧ key.id = id
    | .store (.revokePreAuthKey _) => False
    | _ => True
  expects _
    | .store (.getNodeByNodeKey asked), answer => AnswersKey asked answer
    | _, _ => True
  next φ
    | .store c, answer => φ.afterStore keyPrefix c answer
    | .memory _, _ | .env _, _ => φ

def Presents (keyPrefix : String) (request : RegisterRequest) : Prop :=
  request.followup = "" ∧
    ∃ auth secret, request.auth = some auth ∧ parseAuthKey auth.authKey = some (keyPrefix, secret)

/-! ## `register` keeps to the protocol -/

section Register

variable {cp : ControlPlane} {keyPrefix : String} {nodeKey : NodeKey} {φ : KeyPhase}

def Call.Bystander : Call → Prop
  | .store (.upsertNode _) | .store (.deleteNode _) | .store (.getNodeByNodeKey _)
  | .store (.getPreAuthKey _) | .store (.markPreAuthKeyUsed _)
    | .store (.revokePreAuthKey _) => False
  | _ => True

theorem Call.Bystander.keeps {c : Call} (hc : c.Bystander) :
    (keyProtocol keyPrefix nodeKey).Keeps φ c := by
  cases c with
  | memory c => exact ⟨trivial, fun _ => rfl⟩
  | env c => exact ⟨trivial, fun _ => rfl⟩
  | store c =>
    cases c with
    | upsertNode | deleteNode | getNodeByNodeKey | getPreAuthKey | markPreAuthKeyUsed
    | revokePreAuthKey => exact hc.elim
    | _ => exact ⟨trivial, fun _ => rfl⟩

theorem calls_keep {α : Type} {p : ControlM α} (hp : p.Calls Call.Bystander) :
    p.Calls ((keyProtocol keyPrefix nodeKey).Keeps φ) :=
  hp.mono fun _ hc => hc.keeps

/-- A registration may end here: it has not authorized its row, or with a key that others may use
too. -/
def KeyPhase.MayEnd (φ : KeyPhase) : Prop := ∀ key, φ = .wrote key → key.reusable = true

theorem KeyPhase.Searching.may_end (hφ : φ.Searching) : φ.MayEnd := by
  rintro key rfl
  obtain h | ⟨_, h⟩ := hφ <;> cases h

theorem KeyPhase.Searching.not_admitted (hφ : φ.Searching) : φ.admitted = false := by
  obtain rfl | ⟨_, rfl⟩ := hφ <;> rfl

theorem KeyPhase.searching_or (φ : KeyPhase) :
    φ.Searching ∨ (∀ key, φ.found key = φ) ∧ ∀ row, φ.sawRow row = φ := by
  cases φ with
  | before => exact .inl (.inl rfl)
  | holding key => exact .inl (.inr ⟨key, rfl⟩)
  | known | wrote | finished => exact .inr ⟨fun _ => rfl, fun _ => rfl⟩

abbrev KeepsKey {α : Type} (keyPrefix : String) (nodeKey : NodeKey) (φ : KeyPhase)
    (p : ControlM α) :
    Prop :=
  p.Obeys (keyProtocol keyPrefix nodeKey) φ (fun _ => KeyPhase.MayEnd) (fun _ => KeyPhase.MayEnd)

theorem bystander_bind {α β : Type} {p : ControlM α} {k : α → ControlM β}
    (hp : p.Calls Call.Bystander) (hend : φ.MayEnd)
    (hk : ∀ value, KeepsKey keyPrefix nodeKey φ (k value)) :
    KeepsKey keyPrefix nodeKey φ (p >>= k) :=
  (calls_keep hp).obeys_bind (fun _ => hend) hk

theorem publish_bystander (event : ChangeEvent) : (publishChange event).Calls Call.Bystander :=
  calls_perform.mpr trivial

theorem now_bystander : cp.nowRfc3339.Calls Call.Bystander :=
  Calls.bind (calls_perform.mpr trivial) fun _ => calls_pure _

/-! ### Before the decision -/

theorem ensure_default_user_bystander : cp.ensureDefaultUser.Calls Call.Bystander := by
  refine Calls.bind (Calls.bind (calls_store trivial) fun found => ?_) fun _ =>
    Calls.bind (calls_store trivial) fun found => ?_
  · cases found with
    | none => exact Calls.bind (calls_store trivial) fun _ => calls_pure _
    | some user => exact calls_pure _
  · cases found with
    | none => exact Calls.bind (calls_store trivial) fun _ => calls_pure _
    | some login => exact calls_pure _

theorem create_bootstrap_key_bystander (asked secret : String) :
    (cp.createBootstrapKey asked secret).Calls Call.Bystander :=
  Calls.bind (calls_perform.mpr trivial) fun _ => Calls.bind now_bystander fun _ =>
    Calls.bind (calls_store trivial) fun _ => calls_pure _

theorem KeyPhase.Searching.found (hφ : φ.Searching) (key : PreAuthKey) :
    (φ.found key).Searching := by
  obtain rfl | ⟨held, rfl⟩ := hφ <;> unfold KeyPhase.found <;> dsimp only <;> split
  · exact .inl rfl
  · exact .inr ⟨key, rfl⟩
  · exact .inr ⟨held, rfl⟩
  · exact .inr ⟨key, rfl⟩

theorem lookup_obeys (hφ : φ.Searching) (asked : String) :
    (store (.getPreAuthKey asked)).Obeys (keyProtocol keyPrefix nodeKey) φ
      (fun _ => KeyPhase.Searching) (fun _ => KeyPhase.Searching) := by
  refine obeys_store trivial (fun found _ => ?_) fun _ _ => hφ
  cases found with
  | none => exact hφ
  | some key =>
    change (if asked = keyPrefix then φ.found key else φ).Searching
    split
    · exact hφ.found key
    · exact hφ

theorem ensure_bootstrap_key_obeys (hφ : φ.Searching) :
    cp.ensureBootstrapKey.Obeys (keyProtocol keyPrefix nodeKey) φ
      (fun _ => KeyPhase.Searching) (fun _ => KeyPhase.Searching) := by
  unfold ensureBootstrapKey
  cases parseAuthKey cp.config.authKey with
  | none => exact hφ
  | some parsed =>
    refine (lookup_obeys hφ parsed.1).bind fun found φ' hφ' => ?_
    cases found with
    | some key => exact hφ'
    | none =>
      refine (calls_keep (create_bootstrap_key_bystander parsed.1 parsed.2)).obeys.weaken ?_ ?_
      · rintro _ _ rfl
        exact hφ'
      · rintro _ _ rfl
        exact hφ'

/-! ### With the key -/

def KeyPhase.HoldsGiven (φ : KeyPhase) : Option PreAuthKey → Prop
  | some key => φ = .holding key
  | none => φ.Searching

theorem validated_auth_key_obeys {auth : RegisterAuth} {secret now : String}
    (hparse : parseAuthKey auth.authKey = some (keyPrefix, secret)) (hφ : φ.Searching) :
    (cp.validatedAuthKey auth now).Obeys (keyProtocol keyPrefix nodeKey) φ
      (fun given φ' => φ'.HoldsGiven given) (fun _ => KeyPhase.MayEnd) := by
  unfold validatedAuthKey
  rw [hparse]
  refine Obeys.bind (M := fun found φ' => φ'.Searching ∧ ∀ key, found = some key →
    φ' = φ.found key) (obeys_store trivial (fun found _ => ?_) fun _ _ => hφ.may_end) ?_
  · cases found with
    | none => exact ⟨hφ, fun _ h => by cases h⟩
    | some key =>
      change (if keyPrefix = keyPrefix then φ.found key else φ).Searching ∧ ∀ other, _
      rw [if_pos rfl]
      refine ⟨hφ.found key, ?_⟩
      rintro _ ⟨⟩
      change (if keyPrefix = keyPrefix then φ.found key else φ) = _
      rw [if_pos rfl]
  · rintro found φ' ⟨hφ', hfound⟩
    cases found with
    | none => exact hφ'
    | some key =>
      dsimp only
      split
      · exact hφ'
      split
      · exact hφ'
      split
      · exact hφ'
      split
      · exact hφ'
      case isFalse hunused =>
        -- The key is handed out exactly when the lookup took hold of it.
        have hholding : φ' = .holding key := by
          rw [hfound key rfl]
          obtain rfl | ⟨held, rfl⟩ := hφ <;> simp only [KeyPhase.found, hunused] <;> rfl
        exact hholding

theorem draw_free_bystander {α : Type} [DecidableEq α] (ofNat : Nat → α) (first count : Nat)
    (used : List α) (attempts : Nat) :
    (ControlPlane.drawFree ofNat first count used attempts).Calls Call.Bystander := by
  induction attempts with
  | zero => exact calls_throw _
  | succ attempts ih =>
    refine Calls.bind (calls_perform.mpr trivial) fun offset => ?_
    dsimp only
    split
    · exact ih
    · exact calls_pure _

theorem create_node_obeys (machineKey : MachineKey) (request : RegisterRequest) (userId : Nat)
    (tags : Option (List String)) (ephemeral : Bool) (now : String) (hend : φ.MayEnd) :
    (cp.createNodeFromRequest machineKey request userId tags ephemeral now).Obeys
      (keyProtocol keyPrefix nodeKey) φ
      (fun node φ' => φ' = φ ∧ node.nodeKey = request.nodeKey ∧ node.machineAuthorized = true)
      (fun _ => KeyPhase.MayEnd) := by
  have hipv4 (used : List Ipv4Addr) : (cp.allocateIpv4 used).Calls Call.Bystander := by
    unfold allocateIpv4
    cases ipv4HostRange cp.config.ipv4Prefix cp.config.ipv4PrefixLen with
    | none => exact calls_throw _
    | some range => exact draw_free_bystander _ _ _ _ _
  have hipv6 (used : List Ipv6Addr) : (cp.allocateIpv6 used).Calls Call.Bystander := by
    unfold allocateIpv6
    cases ipv6HostRange cp.config.ipv6Prefix cp.config.ipv6PrefixLen with
    | none => exact calls_throw _
    | some range => exact draw_free_bystander _ _ _ _ _
  exact (calls_keep (calls_store (c := .listNodes) trivial)).obeys_bind (fun _ => hend) fun nodes =>
    (calls_keep (hipv4 _)).obeys_bind (fun _ => hend) fun ipv4 =>
      (calls_keep (hipv6 _)).obeys_bind (fun _ => hend) fun ipv6 => ⟨rfl, rfl, rfl⟩

theorem write_authorized_obeys {key : PreAuthKey} (node : Node) (hkey : node.nodeKey = nodeKey)
    (hauthorized : node.machineAuthorized = true) (event : Node → ChangeEvent) :
    (store (.upsertNode node) >>= fun stored => publishChange (event stored)).Obeys
      (keyProtocol keyPrefix nodeKey) (.holding key) (fun _ φ => φ = .wrote key)
      (fun _ => KeyPhase.MayEnd) := by
  refine Obeys.bind (M := fun _ φ => φ = .wrote key) (obeys_store hkey (fun _ _ => ?_)
    fun _ _ => KeyPhase.Searching.may_end (.inr ⟨key, rfl⟩)) fun stored φ hφ => ?_
  · change (if node.machineAuthorized then KeyPhase.wrote key else .holding key) = _
    rw [if_pos hauthorized]
  · rw [hφ]
    exact ⟨trivial, fun _ _ => rfl⟩

theorem consume_key_obeys (key : PreAuthKey) :
    KeepsKey keyPrefix nodeKey (.wrote key) (ControlPlane.consumeKey key) := by
  have hfinished : KeyPhase.MayEnd .finished := fun _ h => by cases h
  unfold consumeKey
  split
  · exact obeys_store ⟨key, rfl, rfl⟩ (fun _ _ => hfinished) fun _ _ => hfinished
  case isFalse hreusable =>
    rintro _ ⟨⟩
    simpa using hreusable

theorem reauthorize_obeys {key : PreAuthKey} {node : Node} (hkey : node.nodeKey = nodeKey) :
    KeepsKey keyPrefix nodeKey (.holding key) (cp.reauthorize node key) := by
  unfold reauthorize
  refine (write_authorized_obeys { node with
    machineAuthorized := true, tags := key.tags, ephemeral := key.ephemeral } hkey rfl
      fun _ => .nodeChanged node.id).bind ?_
  rintro _ _ rfl
  exact (consume_key_obeys key).bind fun _ _ hend => hend

variable {request : RegisterRequest}

theorem register_with_key_obeys {key : PreAuthKey} (machineKey : MachineKey)
    (now : String) (hkey : request.nodeKey = nodeKey) :
    KeepsKey keyPrefix nodeKey (.holding key) (cp.registerWithKey machineKey request now key) := by
  have hend : KeyPhase.MayEnd (.holding key) := KeyPhase.Searching.may_end (.inr ⟨key, rfl⟩)
  unfold registerWithKey
  dsimp only
  split
  · exact hend
  refine (create_node_obeys machineKey request key.userId key.tags key.ephemeral now hend).bind ?_
  rintro node _ ⟨rfl, hnodeKey, hauthorized⟩
  refine (write_authorized_obeys node (hnodeKey.trans hkey) hauthorized _).bind ?_
  rintro _ _ rfl
  exact (consume_key_obeys key).bind fun _ _ hend => hend

/-! ### Without the key -/

theorem start_interactive_obeys (machineKey : MachineKey) (request : RegisterRequest) (now : String)
    (hend : φ.MayEnd) : KeepsKey keyPrefix nodeKey φ (cp.startInteractive machineKey request now) :=
  bystander_bind (calls_perform.mpr trivial) hend fun _ =>
    bystander_bind (Calls.bind (calls_perform.mpr trivial) fun _ => calls_pure _) hend fun _ =>
      bystander_bind (Calls.bind (calls_perform.mpr trivial) fun _ => calls_store trivial) hend
        fun _ => hend

def KeyPhase.Keyless (φ : KeyPhase) : Prop := φ = .known ∨ φ.Searching

theorem KeyPhase.Keyless.may_end (hφ : φ.Keyless) : φ.MayEnd := by
  obtain rfl | hsearching := hφ
  · exact fun _ h => by cases h
  · exact hsearching.may_end

theorem logout_node_obeys {node : Node} (hkey : node.nodeKey = nodeKey) (nodeKeyExpired : Bool)
    (hφ : φ.Keyless) : KeepsKey keyPrefix nodeKey φ (cp.logoutNode node nodeKeyExpired) := by
  have hwrite : φ.mayWrite nodeKey { node with machineAuthorized := false } := by
    obtain rfl | rfl | ⟨key, rfl⟩ := hφ
    · exact hkey
    · exact ⟨hkey, rfl⟩
    · exact hkey
  unfold logoutNode
  split
  · exact hφ.may_end
  split
  · refine Obeys.bind (M := fun _ φ' => φ' = φ)
      (obeys_store hkey (fun _ _ => rfl) fun _ _ => hφ.may_end) ?_
    rintro _ _ rfl
    exact bystander_bind (publish_bystander _) hφ.may_end fun _ => hφ.may_end
  · refine Obeys.bind (M := fun _ φ' => φ' = φ)
      (obeys_store hwrite (fun _ _ => rfl) fun _ _ => hφ.may_end) ?_
    rintro updated _ rfl
    exact bystander_bind (publish_bystander _) hφ.may_end fun _ => hφ.may_end

theorem relogin_obeys {node : Node} (request : RegisterRequest) (hkey : node.nodeKey = nodeKey) :
    KeepsKey keyPrefix nodeKey .known (cp.relogin node request) := by
  have hend : KeyPhase.MayEnd .known := fun _ h => by cases h
  have howner : (nodeOwnerLogin node).Obeys (keyProtocol keyPrefix nodeKey) .known
      (fun owner φ => φ = .known ∧ (node.userId = none → owner = none))
      (fun _ => KeyPhase.MayEnd) := by
    unfold nodeOwnerLogin
    cases node.userId with
    | none => exact ⟨rfl, fun _ => rfl⟩
    | some userId =>
      exact (calls_keep (calls_store (c := .getUser _) trivial)).obeys_bind (fun _ => hend)
        fun _ => ⟨rfl, fun h => by cases h⟩
  refine howner.bind ?_
  rintro owner _ ⟨rfl, hnone⟩
  rw [apply_request_tags_done cp hnone, retagResult]
  cases hretag : cp.retag owner node (requestedTags request.hostinfo) with
  | none => exact hend
  | some updated =>
    have hwrite : updated.nodeKey = nodeKey := (retag_same_row hretag).nodeKey.trans hkey
    change KeepsKey keyPrefix nodeKey .known (if _ then _ else _)
    split
    · refine Obeys.bind (M := fun _ φ => φ = .known) (Obeys.bind (M := fun _ φ => φ = .known)
        (obeys_store hwrite (fun _ _ => ?_) fun _ _ => hend) ?_) ?_
      · change (if updated.machineAuthorized then KeyPhase.known else .known) = _
        rw [ite_self]
      · rintro _ _ rfl
        exact ⟨trivial, fun _ _ => rfl⟩
      · rintro _ _ rfl
        exact hend
    · exact hend

/-! ### Registration -/

def KeyPhase.Read (φ : KeyPhase) (row : Node) : Prop :=
  if row.machineAuthorized then φ = .known else φ.Searching

theorem KeyPhase.Read.keyless {row : Node} (hφ : φ.Read row) : φ.Keyless := by
  unfold KeyPhase.Read at hφ
  split at hφ
  · exact .inl hφ
  · exact .inr hφ

theorem KeyPhase.Searching.saw_row (hφ : φ.Searching) (row : Node) : (φ.sawRow row).Read row := by
  obtain rfl | ⟨key, rfl⟩ := hφ <;> cases hrow : row.machineAuthorized <;>
    simp [KeyPhase.Read, KeyPhase.sawRow, KeyPhase.Searching, hrow]

theorem register_existing_obeys {machineKey : MachineKey} (now : String)
    {node : Node} (hpresents : Presents keyPrefix request) (hkey : node.nodeKey = nodeKey)
    (hφ : φ.Read node) :
    KeepsKey keyPrefix nodeKey φ (cp.registerExisting machineKey request now node) := by
  have hend := hφ.keyless.may_end
  obtain ⟨_, auth, secret, hauth, hparse⟩ := hpresents
  unfold registerExisting
  split
  · exact hend
  split
  · exact logout_node_obeys hkey true hφ.keyless
  split
  · exact hend
  unfold KeyPhase.Read at hφ
  split
  case isTrue hauthorized =>
    rw [if_pos hauthorized] at hφ
    rw [hφ]
    exact relogin_obeys request hkey
  case isFalse hunauthorized =>
    rw [if_neg hunauthorized] at hφ
    rw [hauth]
    refine (validated_auth_key_obeys hparse hφ).bind fun given φ' hφ' => ?_
    cases given with
    | none => exact start_interactive_obeys machineKey request now hφ'.may_end
    | some key =>
      rw [show φ' = .holding key from hφ']
      exact reauthorize_obeys hkey

theorem register_new_obeys {machineKey : MachineKey} (now : String)
    (hpresents : Presents keyPrefix request) (hkey : request.nodeKey = nodeKey) (hφ : φ.Searching) :
    KeepsKey keyPrefix nodeKey φ (cp.registerNew machineKey request now) := by
  obtain ⟨_, auth, secret, hauth, hparse⟩ := hpresents
  unfold registerNew
  rw [hauth]
  refine (validated_auth_key_obeys hparse hφ).bind fun given φ' hφ' => ?_
  have hend : φ'.MayEnd := by
    cases given with
    | none => exact hφ'.may_end
    | some key => exact KeyPhase.Searching.may_end (.inr ⟨key, hφ'⟩)
  dsimp only
  split
  · exact hend
  split
  · exact hend
  cases given with
  | none => exact start_interactive_obeys machineKey request now hend
  | some key =>
    rw [show φ' = .holding key from hφ']
    exact register_with_key_obeys machineKey now hkey

def KeyPhase.LookedUp (φ : KeyPhase) (nodeKey : NodeKey) : Option Node → Prop
  | some row => row.nodeKey = nodeKey ∧ φ.Read row
  | none => φ.Searching

theorem register_obeys {machineKey : MachineKey} (hpresents : Presents keyPrefix request) :
    KeepsKey keyPrefix request.nodeKey .before
      ((Op.register machineKey request).program cp) := by
  have hbefore : KeyPhase.Searching .before := .inl rfl
  have hbody : KeepsKey keyPrefix request.nodeKey .before
      (cp.registerBody machineKey request) := by
    unfold registerBody
    refine bystander_bind ensure_default_user_bystander hbefore.may_end fun _ => ?_
    refine ((ensure_bootstrap_key_obeys hbefore).weaken (fun _ _ h => h)
      fun _ _ h => h.may_end).bind fun _ φ hφ => ?_
    refine bystander_bind now_bystander hφ.may_end fun now => ?_
    rw [if_neg (by rw [hpresents.1]; exact fun h => h rfl)]
    refine Obeys.bind (M := fun found φ' => φ'.LookedUp request.nodeKey found)
      (obeys_store rfl (fun found hfound => ?_) fun _ _ => hφ.may_end) fun found φ' hφ' => ?_
    · cases found with
      | none => exact hφ
      | some row =>
        refine ⟨hfound, ?_⟩
        exact hφ.saw_row row
    · cases found with
      | none => exact register_new_obeys now hpresents rfl hφ'
      | some row => exact register_existing_obeys now hpresents hφ'.1 hφ'.2
  refine (hbody.attempt.bind fun result φ hφ => ?_).bind fun _ _ h => h
  cases result <;> exact hφ

end Register

end Crabscale.Control
