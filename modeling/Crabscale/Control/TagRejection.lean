import Crabscale.Control.Verdicts

/-!
# Requests for tags that are not allowed

A registration and a map request that ask for a tag that is not allowed fail before they write. An
approval first looks the user up, and creates it: it leaves the store as it was if and only if the
user existed (`rejected_tags_change_nothing_iff`).
-/

namespace Crabscale.Control

open Rust Proto Policy Interaction Interaction.Program ControlPlane

def ControlError.RejectsTags (error : ControlError) : Prop :=
  ∃ rejected, error = .unauthorizedTags rejected

def RejectsTags {α : Type} (p : ControlM α) (w : World) : Prop :=
  ∃ error : ControlError, error.RejectsTags ∧ (exec p w).1 = .error error

variable {cp : ControlPlane}

/-! ## Programs that do not check tags -/

abbrev IgnoresTags {α : Type} (p : ControlM α) : Prop := p.Throws fun error => ¬error.RejectsTags

theorem throw_ignores_tags {α : Type} {error : ControlError}
    (herror : ∀ rejected, error ≠ .unauthorizedTags rejected) :
    IgnoresTags (throw error : ControlM α) :=
  throws_throw fun ⟨rejected, h⟩ => herror rejected h

theorem store_ignores_tags (c : StoreCall) : IgnoresTags (store c) := by
  intro answer
  cases answer with
  | ok result => trivial
  | error error =>
    rintro ⟨rejected, h⟩
    cases h

theorem publish_ignores_tags (event : ChangeEvent) : IgnoresTags (publishChange event) :=
  throws_perform _

theorem draw_free_ignores_tags {α : Type} [DecidableEq α] (ofNat : Nat → α) (first count : Nat)
    (used : List α) (attempts : Nat) : IgnoresTags (drawFree ofNat first count used attempts) := by
  induction attempts with
  | zero => exact throw_ignores_tags fun _ h => by cases h
  | succ attempts ih =>
    refine Throws.bind (throws_perform _) fun offset => ?_
    dsimp only
    split
    · exact ih
    · exact throws_pure _

variable (machineKey : MachineKey) (request : RegisterRequest) (now : String)

theorem create_node_ignores_tags
    (userId : Nat) (tags : Option (List String)) (ephemeral : Bool) (now : String) :
    IgnoresTags (cp.createNodeFromRequest machineKey request userId tags ephemeral now) := by
  refine Throws.bind (store_ignores_tags _) fun nodes => Throws.bind ?_ fun ipv4 =>
    Throws.bind ?_ fun ipv6 => throws_pure _
  · unfold allocateIpv4
    split
    · exact throw_ignores_tags fun _ h => by cases h
    · exact draw_free_ignores_tags _ _ _ _ _
  · unfold allocateIpv6
    split
    · exact throw_ignores_tags fun _ h => by cases h
    · exact draw_free_ignores_tags _ _ _ _ _

theorem remove_pending_ignores_tags (authId : String) : IgnoresTags (removePendingEntry authId) :=
  Throws.bind (throws_perform _) fun _ => store_ignores_tags _

theorem save_pending_ignores_tags (entry : PendingRegistration) :
    IgnoresTags (savePendingEntry entry) :=
  Throws.bind (throws_perform _) fun _ => store_ignores_tags _

theorem admit_node_ignores_tags (node : Node) : IgnoresTags (admitNode node) :=
  Throws.bind (store_ignores_tags _) fun _ => publish_ignores_tags _

theorem save_node_ignores_tags (node : Node) : IgnoresTags (saveNode node) :=
  Throws.bind (store_ignores_tags _) fun _ => publish_ignores_tags _

theorem consume_key_ignores_tags (key : PreAuthKey) : IgnoresTags (consumeKey key) := by
  unfold consumeKey
  split
  · exact store_ignores_tags _
  · exact throws_pure _

theorem get_pending_ignores_tags (authId : String) : IgnoresTags (getPendingEntry authId) := by
  refine Throws.bind (store_ignores_tags _) fun found => ?_
  cases found with
  | none => exact throws_pure _
  | some entry => exact Throws.bind (throws_perform _) fun _ => throws_pure _

theorem validated_auth_key_ignores_tags (auth : RegisterAuth) (now : String) :
    IgnoresTags (cp.validatedAuthKey auth now) := by
  unfold validatedAuthKey
  split
  · exact throws_pure _
  refine Throws.bind (store_ignores_tags _) fun found => ?_
  cases found with
  | none => exact throws_pure _
  | some key =>
    dsimp only
    split_ifs <;> exact throws_pure _

/-! ## Answers to registrations -/

/-- A response that authorizes a node names the user of the configuration. -/
def NamesConfigured (cp : ControlPlane) (response : RegisterResponse) (_ : World) : Prop :=
  response.machineAuthorized = true → response.user = cp.config.userId

abbrev Answers (cp : ControlPlane) (p : ControlM RegisterResponse) : Prop :=
  Yields (fun _ => True) p (NamesConfigured cp)
    (fun error _ => ¬error.RejectsTags)

theorem answers_bind {α : Type} {p : ControlM α} {k : α → ControlM RegisterResponse}
    (hp : IgnoresTags p) (hk : ∀ value, Answers cp (k value)) : Answers cp (p >>= k) :=
  (hp.triple fun _ => safe_any _ _).bind hk

theorem answers_authorized : Answers cp (pure cp.authorizedResponse) :=
  triple_pure fun _ _ _ => rfl

theorem answers_refused {response : RegisterResponse} (h : response.machineAuthorized = false) :
    Answers cp (pure response) :=
  triple_pure fun _ _ hauthorized => absurd hauthorized (Bool.eq_false_iff.mp h)

theorem start_interactive_answers
    : Answers cp (cp.startInteractive machineKey request now) :=
  answers_bind (throws_perform _) fun _ =>
    answers_bind (Throws.bind (throws_perform _) fun _ => throws_pure _) fun _ =>
      answers_bind (save_pending_ignores_tags _) fun _ => answers_refused rfl

theorem complete_followup_answers (entry : PendingRegistration)
    (userId : Nat) (tags : Option (List String)) (now : String) :
    Answers cp (cp.completeFollowup machineKey entry userId tags now) := by
  refine answers_bind (remove_pending_ignores_tags _) fun _ =>
    answers_bind (store_ignores_tags _) fun found => ?_
  dsimp only
  split
  · exact answers_authorized
  · exact answers_bind (create_node_ignores_tags _ _ _ _ _ _) fun node =>
      answers_bind (admit_node_ignores_tags node) fun _ => answers_authorized

theorem poll_followup_answers
    : Answers cp (cp.pollFollowup machineKey request now) := by
  unfold pollFollowup
  split
  · exact answers_refused rfl
  refine answers_bind (get_pending_ignores_tags _) fun found => ?_
  cases found with
  | none => exact answers_refused rfl
  | some entry =>
    dsimp only
    split
    · exact answers_refused rfl
    split
    · exact answers_bind (remove_pending_ignores_tags _) fun _ => answers_refused rfl
    split
    · exact answers_refused rfl
    · exact answers_bind (remove_pending_ignores_tags _) fun _ => answers_refused rfl
    · exact complete_followup_answers _ _ _ _ _

theorem logout_node_answers (node : Node) (nodeKeyExpired : Bool) :
    Answers cp (cp.logoutNode node nodeKeyExpired) := by
  unfold logoutNode
  split
  · exact answers_authorized
  split
  · exact answers_bind (store_ignores_tags _) fun _ =>
      answers_bind (publish_ignores_tags _) fun _ => answers_refused rfl
  · exact answers_bind (store_ignores_tags _) fun _ =>
      answers_bind (publish_ignores_tags _) fun _ => answers_refused rfl

theorem register_new_answers
    : Answers cp (cp.registerNew machineKey request now) := by
  have hkey : IgnoresTags (cp.optionalAuthKey request.auth now) := by
    unfold optionalAuthKey
    cases request.auth with
    | none => exact throws_pure _
    | some auth => exact validated_auth_key_ignores_tags auth now
  refine answers_bind hkey fun key => ?_
  dsimp only
  split
  · exact answers_refused rfl
  split
  · exact answers_refused rfl
  cases key with
  | none => exact start_interactive_answers _ _ _
  | some key =>
    unfold registerWithKey
    dsimp only
    split
    · exact triple_throw_bind fun _ _ ⟨rejected, h⟩ => by cases h
    · exact answers_bind (create_node_ignores_tags _ _ _ _ _ _) fun node =>
        answers_bind (admit_node_ignores_tags node) fun _ =>
        answers_bind (consume_key_ignores_tags key) fun _ => answers_authorized

/-! ## Programs that check tags -/

/-- A failure because of tags leaves a database. -/
abbrev SparesStore (db : Db) (error : ControlError) (w : World) : Prop :=
    error.RejectsTags → w.db = db

theorem IgnoresTags.spares {α : Type} {p : ControlM α} (hp : IgnoresTags p) (P : World → Prop)
    (db : Db) : Yields P p (fun _ _ => True) (SparesStore db) :=
  (hp.triple fun _ => safe_any _ _).weaken (fun _ h => h) (fun _ _ h => h)
    fun _ _ herror htags => absurd htags herror

theorem Answers.spares {p : ControlM RegisterResponse} (hp : Answers cp p) (P : World → Prop)
    (db : Db) : Yields P p (NamesConfigured cp) (SparesStore db) :=
  hp.weaken (fun _ _ => trivial) (fun _ _ h => h) fun _ _ herror htags => absurd htags herror

theorem relogin_spares (w₀ : World) (node : Node) (request : RegisterRequest) :
    Yields (· = w₀) (cp.relogin node request) (NamesConfigured cp) (SparesStore w₀.db) := by
  refine triple_bind_run (safe_any _ _) (reads_node_owner_login node w₀) ?_
  dsimp only
  rw [apply_request_tags_done cp owner_login_none]
  refine Triple.bind (M := fun _ _ => True) ?_ fun result => ?_
  · rintro w rfl
    refine ⟨trivial, ?_⟩
    cases hresult : cp.retagResult (w.ownerLogin node) node (requestedTags request.hostinfo) with
    | ok result => trivial
    | error error => exact fun _ => rfl
  · split
    · exact (answers_bind (save_node_ignores_tags _) fun _ => answers_authorized).spares _ _
    · exact answers_authorized.spares _ _

theorem register_existing_spares (w₀ : World) (machineKey : MachineKey) (request : RegisterRequest)
    (now : String) (node : Node) :
    Yields (· = w₀) (cp.registerExisting machineKey request now node)
      (NamesConfigured cp) (SparesStore w₀.db) := by
  unfold registerExisting
  split
  · exact (answers_refused rfl).spares _ _
  split
  · exact (logout_node_answers node true).spares _ _
  split
  · exact (answers_refused rfl).spares _ _
  split
  · exact relogin_spares w₀ node request
  cases request.auth with
  | none => exact Answers.spares (start_interactive_answers _ _ _) _ _
  | some auth =>
    refine Answers.spares (answers_bind (validated_auth_key_ignores_tags _ _) fun key => ?_) _ _
    cases key with
    | none => exact start_interactive_answers _ _ _
    | some key =>
      exact answers_bind (save_node_ignores_tags _) fun _ =>
        answers_bind (consume_key_ignores_tags key) fun _ => answers_authorized

/-- With the configured rows stored, a registration that fails because of tags leaves the store. -/
theorem register_body_spares {w₀ : World} (hboot : Bootstrapped cp w₀.db) (machineKey : MachineKey)
    (request : RegisterRequest) :
    Yields (· = w₀) (cp.registerBody machineKey request) (NamesConfigured cp)
      (SparesStore w₀.db) := by
  rw [register_body_eq]
  refine triple_bind_run (safe_any _ _) (bootstrap_run hboot)
    (triple_bind_run (safe_any _ _) (now_run cp w₀) ?_)
  unfold registerAt
  split
  · exact Answers.spares (poll_followup_answers _ _ _) _ _
  refine triple_bind_run (safe_any _ _) (reads_get_node_by_node_key request.nodeKey w₀.tick) ?_
  dsimp only
  split
  · exact register_existing_spares w₀.tick machineKey request _ _
  · exact Answers.spares (register_new_answers _ _ _) _ _

theorem record_map_request_spares (w₀ : World) (machineKey : MachineKey) (request : MapRequest) :
    Yields (· = w₀) (cp.recordMapRequest machineKey request) (fun _ _ => True)
      (SparesStore w₀.db) := by
  unfold recordMapRequest
  dsimp only
  split
  · exact triple_throw_bind fun _ hw _ => congrArg World.db hw
  split
  · exact triple_throw_bind fun _ hw _ => congrArg World.db hw
  refine triple_bind_run (safe_any _ _) (reads_get_node_by_node_key request.nodeKey w₀) ?_
  split
  · exact triple_throw fun _ hw _ => congrArg World.db hw
  rename_i before _
  refine triple_bind_run (safe_any _ _) (now_run cp w₀) ?_
  have htags := apply_map_tags_run cp w₀.tick (observeRequest before request (cp.nowAt w₀)) request
  cases hmap : cp.mapTags w₀.tick (observeRequest before request (cp.nowAt w₀)) request with
  | none =>
    rw [hmap] at htags
    exact triple_bind_run_error (safe_any _ _) htags fun _ => rfl
  | some node =>
    rw [hmap] at htags
    refine triple_bind_run (safe_any _ _) htags ?_
    have hrest : IgnoresTags (do
        let _ ← store (.upsertNode node)
        if node ≠ before then publishChange (.nodeChanged node.id)
        publishChange (.peerSeen node.id)
        return node : ControlM Node) := by
      refine Throws.bind (store_ignores_tags _) fun _ => ?_
      dsimp only
      split
      · exact Throws.bind (publish_ignores_tags _) fun _ =>
          Throws.bind (publish_ignores_tags _) fun _ => throws_pure _
      · exact Throws.bind (publish_ignores_tags _) fun _ => throws_pure _
    exact hrest.spares _ _

def ControlPlane.EncodesApart (cp : ControlPlane) : Prop :=
  ∀ response compress error, cp.ext.encodeError response compress = some error →
    ¬error.RejectsTags

theorem answer_map_request_spares (hencode : cp.EncodesApart) (node : Node) (request : MapRequest)
    (db : Db) :
    Yields (fun _ => True) (cp.answerMapRequest node request) (fun _ _ => True)
      (SparesStore db) := by
  unfold answerMapRequest
  dsimp only
  split
  · exact triple_done
  refine Triple.bind (M := fun _ _ => True)
    ((reads_build_initial_map cp node request).triple (fun _ => safe_any _ _) fun _ _ => trivial)
    fun response => ?_
  refine Triple.bind (M := fun _ _ => True) ?_ fun frame => ?_
  · unfold encodeFrame
    split
    · rename_i error herror
      exact triple_throw fun _ _ htags => absurd htags (hencode _ _ _ herror)
    · exact triple_done
  split
  · refine Triple.bind (M := fun _ _ => True) (IgnoresTags.spares (Throws.bind (throws_perform _)
      fun now => Throws.bind (throws_perform _) fun opened => Throws.bind (Throws.forM ?_)
        fun _ => throws_pure _) _ _) fun _ => triple_done
    intro event
    cases event with
    | online id => exact publish_ignores_tags _
    | offline id => exact throws_pure _
    | ephemeralExpired id => exact throws_pure _
  · exact triple_done

theorem handle_map_spares (hencode : cp.EncodesApart) (w₀ : World) (machineKey : MachineKey)
    (request : MapRequest) :
    Yields (· = w₀) (cp.handleMap machineKey request) (fun _ _ => True) (SparesStore w₀.db) :=
  (record_map_request_spares w₀ machineKey request).bind fun node =>
    answer_map_request_spares hencode node request w₀.db

/-! ## Approvals -/

theorem live_pending_spares (w₀ : World) (authId : String) {E : ControlError → World → Prop}
    (hE : ∀ error w, ¬error.RejectsTags → E error w) :
    Yields (· = w₀) (cp.livePendingEntry authId) (fun _ w => w.db = w₀.db) E := by
  refine triple_bind_run (safe_any _ _) (now_run cp w₀) ?_
  have hget : Yields (· = w₀.tick) (getPendingEntry authId)
      (fun _ w => w.db = w₀.db) E := by
    refine triple_bind_run (safe_any _ _) (reads_get_pending authId w₀.tick) ?_
    dsimp only
    split
    · exact triple_pure fun _ hw => hw ▸ rfl
    · exact Triple.bind (M := fun _ w => w.db = w₀.db)
        (triple_perform (fun _ _ => trivial) fun _ hw => hw ▸ rfl)
        fun _ => triple_pure fun _ hw => hw
  have hnotFound : ¬ControlError.RejectsTags .notFound := by
    rintro ⟨rejected, h⟩
    cases h
  refine hget.bind fun found => ?_
  cases found with
  | none => exact triple_throw fun w _ => hE _ w hnotFound
  | some entry =>
    dsimp only
    split
    · have hremove := (remove_pending_ignores_tags authId).triple (h := handler)
        (P := fun w => w.db = w₀.db) (G := anyCall) fun _ => safe_any _ _
      exact (hremove.weaken (fun _ h => h) (fun _ _ h => h) hE).bind fun _ =>
        triple_throw_bind fun w _ => hE _ w hnotFound
    · exact triple_pure fun _ hw => hw

theorem approve_pending_spares (w₀ : World) (authId userName : String) :
    Yields (· = w₀) (cp.approvePending authId userName) (fun _ _ => True)
      (fun error w => error.RejectsTags →
        (w.db = w₀.db ↔ ∃ user, w₀.db.getUserByLoginName userName = some user)) := by
  have hE (error : ControlError) (w : World) (herror : ¬error.RejectsTags) : error.RejectsTags →
      (w.db = w₀.db ↔ ∃ user, w₀.db.getUserByLoginName userName = some user) :=
    fun htags => absurd htags herror
  refine (live_pending_spares w₀ authId hE).bind fun entry => ?_
  refine Triple.bind (M := fun _ w =>
    (w.db = w₀.db ↔ ∃ user, w₀.db.getUserByLoginName userName = some user)) ?_ fun userId => ?_
  · refine triple_bind_read any_call_allows_quiet (reads_get_user_by_login_name userName)
      (calls_store trivial) fun found => ?_
    refine Triple.assume (φ := w₀.db.getUserByLoginName userName = found) ?_ fun hfound => ?_
    · rintro w ⟨hdb, hread⟩
      rwa [hdb] at hread
    rw [hfound]
    cases found with
    | some user => exact triple_pure fun w hw => iff_of_true hw.1 ⟨user, rfl⟩
    | none =>
      refine Triple.bind (M := fun _ w => w.db = w₀.db) ?_ fun now => ?_
      · exact Triple.bind (M := fun _ w => w.db = w₀.db)
          (triple_perform (fun _ _ => trivial) fun _ hw => hw.1) fun _ =>
            triple_pure fun _ hw => hw
      refine Triple.bind (M := fun _ w => w.db ≠ w₀.db) (triple_store (fun _ _ => trivial) ?_ ?_)
        fun user => triple_pure fun w hw => iff_of_false hw fun ⟨_, hnone⟩ => by cases hnone
      · intro w hw user db hrun hsame
        obtain ⟨htables, -⟩ := Db.statement_ok hrun
        have husers : db.users = w₀.db.users ++ [_] := hw ▸ congrArg Tables.users htables
        have hlength := congrArg List.length husers
        rw [show db = w₀.db from hsame, List.length_append] at hlength
        simp at hlength
      · rintro w hw error db - ⟨rejected, h⟩
        cases h
  · dsimp only
    split
    · exact triple_throw_bind fun _ hw _ => hw
    · exact ((save_pending_ignores_tags _).triple fun _ => safe_any _ _).weaken (fun _ h => h)
        (fun _ _ h => h) hE

/-! ## All three -/

theorem RejectsTags.error {α : Type} {p : ControlM α} {w : World} (h : RejectsTags p w)
    {Q : α → World → Prop} {E : ControlError → World → Prop}
    (hp : Yields (· = w) p Q fun error w' => error.RejectsTags → E error w') :
    ∃ error, E error (exec p w).2 := by
  obtain ⟨error, htags, herror⟩ := h
  exact ⟨error, hp.error rfl (Prod.ext herror rfl) htags⟩

theorem register_ends (cp : ControlPlane) (machineKey : MachineKey) (request : RegisterRequest)
    (w : World) : (exec (cp.register machineKey request) w).2 =
      (exec (cp.registerBody machineKey request) w).2 := by
  unfold exec register
  rw [run_bind, run_attempt]
  dsimp only
  cases ((cp.registerBody machineKey request).run handler w).1 <;> rfl

/-- A request for tags that are not allowed leaves the store as it was, except that an approval for
a user that does not exist creates the user. -/
theorem rejected_tags_change_nothing_iff (cp : ControlPlane) (hencode : cp.EncodesApart) (w : World)
    (hboot : Bootstrapped cp w.db) (machineKey : MachineKey) (registration : RegisterRequest)
    (request : MapRequest) (authId userName : String) :
    (RejectsTags (cp.registerBody machineKey registration) w →
      (exec (cp.register machineKey registration) w).2.db = w.db) ∧
    (RejectsTags (cp.handleMap machineKey request) w →
      (exec (cp.handleMap machineKey request) w).2.db = w.db) ∧
    (RejectsTags (cp.approvePending authId userName) w →
      ((exec (cp.approvePending authId userName) w).2.db = w.db ↔
        ∃ user, w.db.getUserByLoginName userName = some user)) := by
  refine ⟨fun hrejects => ?_, fun hrejects => ?_, fun hrejects => ?_⟩
  · rw [register_ends]
    obtain ⟨-, hdb⟩ := hrejects.error (E := fun _ w' => w'.db = w.db)
      (register_body_spares hboot machineKey registration)
    exact hdb
  · obtain ⟨-, hdb⟩ := hrejects.error (E := fun _ w' => w'.db = w.db)
      (handle_map_spares hencode w machineKey request)
    exact hdb
  · obtain ⟨-, hiff⟩ := hrejects.error (approve_pending_spares w authId userName)
    exact hiff

def askForTag (key : Nat) : RegisterRequest :=
  { version := 113, nodeKey := ⟨key⟩, hostinfo := some { requestTags := some ["tag:web"] } }

def mapForTag : MapRequest :=
  { version := 113, nodeKey := ⟨1⟩, hostinfo := some { requestTags := some ["tag:web"] } }

def tagPending : World :=
  runOps openServer [registerFirst, .register ⟨2⟩ (askForTag 2)]
    (openServer.withStore Db.empty stillEnv)

/-- The registered node, a map request and an approval for the configured user are not allowed the
tag, and leave the store. -/
theorem rejected_tags_change_nothing_pending :
    (exec (openServer.register ⟨1⟩ (askForTag 1)) tagPending).2.db = tagPending.db ∧
    (exec (openServer.handleMap ⟨1⟩ mapForTag) tagPending).2.db = tagPending.db ∧
    ((exec (openServer.approvePending "token" "owner@example.com") tagPending).2.db =
        tagPending.db ↔
      ∃ user, tagPending.db.getUserByLoginName "owner@example.com" = some user) := by
  have hencode : openServer.EncodesApart := by
    intro response compress error herror
    cases herror
  have hboot : Bootstrapped openServer tagPending.db := by
    refine ⟨by decide +kernel, by decide +kernel, fun keyPrefix secret hparse => ?_⟩
    have hkey : (parseAuthKey openServer.config.authKey).all (fun parsed =>
        parsed.1 ∈ tagPending.db.preAuthKeys.map PreAuthKey.keyPrefix) = true := by decide +kernel
    rw [hparse] at hkey
    exact of_decide_eq_true hkey
  obtain ⟨hregister, hmap, happrove⟩ := rejected_tags_change_nothing_iff openServer hencode
    tagPending hboot ⟨1⟩ (askForTag 1) mapForTag "token" "owner@example.com"
  refine ⟨hregister ⟨_, ⟨["tag:web"], rfl⟩, ?_⟩, hmap ⟨_, ⟨["tag:web"], rfl⟩, ?_⟩,
    happrove ⟨_, ⟨["tag:web"], rfl⟩, ?_⟩⟩
  all_goals decide +kernel

/-- An approval for an unknown user is rejected because of the tag, and leaves the user behind. -/
theorem rejected_approval_creates_user :
    (exec (openServer.approvePending "token" "stranger@example.com") tagPending).1 =
        .error (.unauthorizedTags ["tag:web"]) ∧
      tagPending.db.users.map User.loginName = ["owner@example.com"] ∧
      (exec (openServer.approvePending "token" "stranger@example.com")
        tagPending).2.db.users.map User.loginName =
          ["owner@example.com", "stranger@example.com"] := by
  decide +kernel

/-! ## The user in a register response

A response that authorizes a node names the user of the configuration, whoever owns the node
(`register_names_configured`), but an approval can be for any other user: `owner_misnamed`. -/

variable {cp : ControlPlane} {op : Op} {w₀ w : World}

theorem register_body_names :
    Yields (fun _ => True) (cp.registerBody machineKey request) (NamesConfigured cp) := by
  refine Triple.bind (any_triple _ _) fun _ => Triple.bind (any_triple _ _) fun _ =>
    Triple.bind (any_triple _ _) fun now => ?_
  split
  · exact (poll_followup_answers machineKey request now).weaken (fun _ _ => trivial)
      (fun _ _ h => h) fun _ _ _ => trivial
  refine Triple.bind (any_triple _ _) fun found => ?_
  cases found with
  | some node =>
    intro w _
    exact ((register_existing_spares w machineKey request now node).weaken (fun _ h => h)
      (fun _ _ h => h) fun _ _ _ => trivial) w rfl
  | none =>
    exact (register_new_answers machineKey request now).weaken (fun _ _ => trivial)
      (fun _ _ h => h) fun _ _ _ => trivial

theorem register_names_configured {machineKey : MachineKey} {request : RegisterRequest}
    {response : RegisterResponse} {w' : World}
    (hrun : exec (cp.register machineKey request) w = (.ok response, w'))
    (hauthorized : response.machineAuthorized = true) : response.user = cp.config.userId := by
  have hspec : Yields (fun _ => True) (cp.register machineKey request)
      (NamesConfigured cp) := by
    refine (register_body_names machineKey request).attempt.bind fun result => ?_
    cases result with
    | ok response => exact triple_pure fun _ h => h
    | error error => exact triple_pure fun _ _ h => by cases h
  exact hspec.ok trivial hrun hauthorized

def beforeFirst : World := openServer.withStore Db.empty stillEnv

def approvedForAlice : World :=
  runOps openServer [askFor 1 1, .approvePending "token" "alice@example.com"]
    (openServer.withStore Db.empty stillEnv)

def aliceFollowup : RegisterRequest :=
  { version := 113, nodeKey := ⟨1⟩, followup := "https://tailnet.example/register/token" }

end Crabscale.Control
