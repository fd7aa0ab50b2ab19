import Crabscale.Control.KeyProtocol
import Mathlib.Data.Fintype.Basic
import Mathlib.Data.Set.Subsingleton

/-!
# Single-use keys under concurrent registrations

Registrations can all look a key up before any of them marks it used (`single_use_key_shared`).
`single_use_key_admits_one`: when no lookup falls between another registration's lookup and its
mark, at most one row becomes authorized, under every interleaving. A registration that found the
key usable and has not marked it yet holds the key; the key is unused as long as it is held.
-/

namespace Crabscale.Control

open Rust Proto Policy Interaction Interaction.Program

/-! ## Keys after a call -/

variable {key : PreAuthKey}

theorem Db.get_key_create {db : Db} {keyPrefix : String}
    (h : db.getPreAuthKey keyPrefix = some key) (new : PreAuthKey) :
    (db.createPreAuthKey new).2.getPreAuthKey keyPrefix = some key := by
  unfold Db.createPreAuthKey Db.getPreAuthKey
  dsimp only
  obtain hsame | htables := Db.statement_cases db { db.toTables with
    preAuthKeys := db.preAuthKeys ++
      [{ new with id := nextRowid (db.preAuthKeys.map PreAuthKey.id) }]
    lastInsertRowid := nextRowid (db.preAuthKeys.map PreAuthKey.id) }
    { new with id := nextRowid (db.preAuthKeys.map PreAuthKey.id) }
  · rw [hsame]
    exact h
  · rw [htables, List.find?_append]
    unfold Db.getPreAuthKey at h
    rw [h]
    rfl

theorem Db.get_key_mark {db : Db} {keyPrefix : String} (h : db.getPreAuthKey keyPrefix = some key) :
    (db.markPreAuthKeyUsed key.id).2.getPreAuthKey keyPrefix = some { key with used := true } := by
  have hany : db.preAuthKeys.any (·.id == key.id) = true :=
    List.any_eq_true.mpr ⟨key, List.mem_of_find?_eq_some h, by simp⟩
  let mark (stored : PreAuthKey) : PreAuthKey :=
    if stored.id = key.id then { stored with used := true } else stored
  have hprefixes (stored : PreAuthKey) : (mark stored).keyPrefix = stored.keyPrefix := by
    unfold mark
    split <;> rfl
  have hvalid : Tables.Valid { db.toTables with preAuthKeys := db.preAuthKeys.map mark } := by
    refine Db.edit_keys_valid (fun stored => ?_) hprefixes fun stored => ?_
    all_goals
      unfold mark
      split <;> rfl
  have hfind : (db.preAuthKeys.map mark).find? (·.keyPrefix == keyPrefix) = some (mark key) := by
    have hsame : ((·.keyPrefix == keyPrefix) ∘ mark) = fun stored : PreAuthKey =>
        stored.keyPrefix == keyPrefix := funext fun stored => by simp [hprefixes stored]
    rw [List.find?_map, hsame, show db.preAuthKeys.find? _ = some key from h]
    rfl
  rw [Db.markPreAuthKeyUsed, if_pos hany, Db.statement_of_valid db hvalid]
  refine hfind.trans ?_
  unfold mark
  rw [if_pos rfl]

/-! ## Any number of registrations -/

section Pool

variable {ι : Type}

abbrev Registrations (ι : Type) : Type := Pool signature ControlError Unit KeyPhase ι World

def registrations (cp : ControlPlane) (requests : ι → MachineKey × RegisterRequest) (w : World) :
    Registrations ι where
  threads i := (Op.register (requests i).1 (requests i).2).program cp
  phases _ := .before
  state := w

def keyProtocols (keyPrefix : String) (requests : ι → MachineKey × RegisterRequest) (i : ι) :
    Protocol signature KeyPhase :=
  keyProtocol keyPrefix (requests i).2.nodeKey

def holdsKey (pool : Registrations ι) (i : ι) : Bool :=
  !pool.ended i && (pool.phases i).holds

/-- A node write succeeds or leaves the database as it was: it does not stop between its two
statements. -/
def WholeWrite (db : Db) (node : Node) : Prop :=
  (db.upsertNode node).1.isOk = true ∨ (db.upsertNode node).2.toTables = db.toTables

instance (db : Db) (node : Node) : Decidable (WholeWrite db node) :=
  inferInstanceAs (Decidable (_ ∨ _))

def NewlyAuthorized (w₀ w : World) (nodeKey : NodeKey) : Prop :=
  w.db.authorizes nodeKey = true ∧ w₀.db.authorizes nodeKey = false

instance (w₀ w : World) (nodeKey : NodeKey) : Decidable (NewlyAuthorized w₀ w nodeKey) :=
  inferInstanceAs (Decidable (_ ∧ _))

/-- No lookup of the key falls between another registration's lookup and its mark, and every node
write is a whole one. -/
def Undisturbed (keyPrefix : String) (pool : Registrations ι) (i : ι) : Call → Prop
  | .store (.getPreAuthKey asked) => asked = keyPrefix → ∀ j, j ≠ i → holdsKey pool j = false
  | .store (.upsertNode node) => WholeWrite pool.state.db node
  | _ => True

instance [Fintype ι] [DecidableEq ι] (keyPrefix : String) (pool : Registrations ι) (i : ι)
    (c : Call) : Decidable (Undisturbed keyPrefix pool i c) :=
  match c with
  | .store (.getPreAuthKey asked) =>
    inferInstanceAs (Decidable (asked = keyPrefix → ∀ j, j ≠ i → holdsKey pool j = false))
  | .store (.upsertNode node) => inferInstanceAs (Decidable (WholeWrite pool.state.db node))
  | .store (.createUser _) | .store (.getUser _) | .store (.getUserByLoginName _)
  | .store (.createLogin _) | .store (.getLogin _) | .store (.getLoginByProviderSubject _ _)
  | .store (.updateUserDisplayName _ _) | .store (.getNodeByNodeKey _) | .store (.getNodeById _)
  | .store .listNodes | .store (.deleteNode _) | .store (.createPreAuthKey _)
  | .store (.markPreAuthKeyUsed _) | .store (.revokePreAuthKey _) | .store (.savePending _)
  | .store (.getPending _) | .store (.deletePending _) | .store (.saveSshAuth _)
  | .store (.getSshAuth _) | .store .listSshAuths | .store (.deleteSshAuth _) | .memory _
  | .env _ => isTrue trivial

/-- The key is held by at most one registration and unused as long as it is held; it is used once
it has been marked; and only a registration that went through it has a new authorized row. -/
structure SoleHolder (keyPrefix : String) (id : Nat) (requests : ι → MachineKey × RegisterRequest)
    (w₀ : World) (pool : Registrations ι) : Prop where
  key : ∃ key, pool.state.db.getPreAuthKey keyPrefix = some key ∧ key.id = id ∧
    key.reusable = false ∧ (∀ i, holdsKey pool i = true → key.used = false) ∧
    ∀ i, pool.phases i = .finished → key.used = true
  held : ∀ i key, pool.phases i = .holding key ∨ pool.phases i = .wrote key →
    key.id = id ∧ key.reusable = false
  sole : ∀ i j, holdsKey pool i = true → holdsKey pool j = true → i = j
  known : ∀ i, pool.phases i = .known → w₀.db.authorizes (requests i).2.nodeKey = true
  one : ∀ i j, (pool.phases i).admitted = true → (pool.phases j).admitted = true → i = j
  rows : ∀ i, pool.state.db.authorizes (requests i).2.nodeKey = true →
    w₀.db.authorizes (requests i).2.nodeKey = true ∨ (pool.phases i).admitted = true

variable {keyPrefix : String} {id : Nat} {requests : ι → MachineKey × RegisterRequest}
  {w₀ : World} {pool after : Registrations ι} {i : ι}

structure OneMoved (pool after : Registrations ι) (i : ι) : Prop where
  phases : ∀ j, j ≠ i → after.phases j = pool.phases j
  holds : ∀ j, j ≠ i → holdsKey after j = holdsKey pool j

structure Respects (keyPrefix : String) (id : Nat) (requests : ι → MachineKey × RegisterRequest)
    (w₀ : World) (pool : Registrations ι) (i : ι) (φ : KeyPhase) (w : World) : Prop where
  key : ∀ key, pool.state.db.getPreAuthKey keyPrefix = some key → key.id = id →
    ∃ key', w.db.getPreAuthKey keyPrefix = some key' ∧ key'.id = key.id ∧
      key'.reusable = key.reusable ∧ (φ.holds = true → key'.used = false) ∧
      (φ = .finished → key'.used = true) ∧
      (key'.used = key.used ∨ key'.used = true ∧ ∀ j, j ≠ i → holdsKey pool j = false)
  held : ∀ key, φ = .holding key ∨ φ = .wrote key → key.id = id ∧ key.reusable = false
  sole : φ.holds = true → ∀ j, j ≠ i → holdsKey pool j = false
  known : φ = .known → w₀.db.authorizes (requests i).2.nodeKey = true
  one : φ.admitted = true → ∀ j, j ≠ i → (pool.phases j).admitted = false
  kept : (pool.phases i).admitted = true → φ.admitted = true
  rows : ∀ j, w.db.authorizes (requests j).2.nodeKey = true →
    pool.state.db.authorizes (requests j).2.nodeKey = true ∨
      j = i ∧ (w₀.db.authorizes (requests i).2.nodeKey = true ∨ φ.admitted = true)

theorem holds_phase (h : holdsKey pool i = true) : (pool.phases i).holds = true :=
  (Bool.and_eq_true_iff.mp h).2

theorem SoleHolder.step (hinv : SoleHolder keyPrefix id requests w₀ pool)
    (hmoved : OneMoved pool after i)
    (hstep : Respects keyPrefix id requests w₀ pool i (after.phases i) after.state) :
    SoleHolder keyPrefix id requests w₀ after where
  key := by
    obtain ⟨key, hkey, hid, hreusable, hunused, hused⟩ := hinv.key
    obtain ⟨key', hkey', hid', hreusable', hholding, hmarked, hmark⟩ := hstep.key key hkey hid
    refine ⟨key', hkey', hid'.trans hid, hreusable'.trans hreusable, fun j hj => ?_, fun j hj => ?_⟩
    · obtain rfl | hne := eq_or_ne j i
      · exact hholding (holds_phase hj)
      rw [hmoved.holds j hne] at hj
      obtain hsame | ⟨_, hnone⟩ := hmark
      · exact hsame.trans (hunused j hj)
      · rw [hnone j hne] at hj
        cases hj
    · obtain rfl | hne := eq_or_ne j i
      · exact hmarked hj
      rw [hmoved.phases j hne] at hj
      obtain hsame | ⟨htrue, _⟩ := hmark
      · exact hsame.trans (hused j hj)
      · exact htrue
  held j held hj := by
    obtain rfl | hne := eq_or_ne j i
    · exact hstep.held held hj
    · exact hinv.held j held (hmoved.phases j hne ▸ hj)
  sole := Pool.unique_advance hinv.sole (fun j hne hj => hmoved.holds j hne ▸ hj)
    fun hi j hne hj => by
    rw [hstep.sole (holds_phase hi) j hne] at hj
    cases hj
  known j hj := by
    obtain rfl | hne := eq_or_ne j i
    · exact hstep.known hj
    · exact hinv.known j (hmoved.phases j hne ▸ hj)
  one := Pool.unique_advance hinv.one (fun j hne hj => hmoved.phases j hne ▸ hj)
    fun hi j hne hj => by
    rw [hstep.one hi j hne] at hj
    cases hj
  rows j hj := by
    obtain hbefore | ⟨rfl, hnew⟩ := hstep.rows j hj
    · refine (hinv.rows j hbefore).imp_right fun hadmitted => ?_
      obtain rfl | hne := eq_or_ne j i
      · exact hstep.kept hadmitted
      · rwa [hmoved.phases j hne]
    · exact hnew

section Calls

variable (hinv : SoleHolder keyPrefix id requests w₀ pool) (hrunning : pool.ended i = false)
  {w : World}

include hrunning in
theorem holds_of_phase (h : (pool.phases i).holds = true) : holdsKey pool i = true := by
  simp [holdsKey, hrunning, h]

include hinv

theorem SoleHolder.others_free (h : holdsKey pool i = true) (j : ι) (hne : j ≠ i) :
    holdsKey pool j = false := by
  by_contra hj
  exact hne (hinv.sole j i (Bool.eq_true_of_not_eq_false hj) h)

include hrunning

theorem SoleHolder.respects_same
    (hkey : w.db.getPreAuthKey keyPrefix = pool.state.db.getPreAuthKey keyPrefix)
    (hrows : ∀ nodeKey, w.db.authorizes nodeKey = true →
      pool.state.db.authorizes nodeKey = true) :
    Respects keyPrefix id requests w₀ pool i (pool.phases i) w where
  key key hstored _ := by
    obtain ⟨_, hsame, _, _, hunused, hused⟩ := hinv.key
    rw [hstored] at hsame
    cases hsame
    exact ⟨key, hkey.trans hstored, rfl, rfl, fun h => hunused i (holds_of_phase hrunning h),
      fun h => hused i h, .inl rfl⟩
  held := hinv.held i
  sole h := hinv.others_free (holds_of_phase hrunning h)
  known := hinv.known i
  one h j hne := by
    by_contra hj
    exact hne (hinv.one j i (Bool.eq_true_of_not_eq_false hj) h)
  kept h := h
  rows j hj := .inl (hrows _ hj)

theorem SoleHolder.respects_found (hsearching : (pool.phases i).Searching)
    (hkey : pool.state.db.getPreAuthKey keyPrefix = some key)
    (hfree : ∀ j, j ≠ i → holdsKey pool j = false) :
    Respects keyPrefix id requests w₀ pool i ((pool.phases i).found key) pool.state := by
  obtain ⟨_, hstored, hid, hreusable, _, _⟩ := hinv.key
  rw [hkey] at hstored
  cases hstored
  have hfound : (pool.phases i).found key = if key.used then pool.phases i else .holding key := by
    obtain h | ⟨held, h⟩ := hsearching <;> simp [h, KeyPhase.found, hreusable]
  rw [hfound]
  split
  case isTrue => exact hinv.respects_same hrunning rfl fun _ h => h
  case isFalse hunused =>
    exact {
      key other hother _ := by
        rw [hkey] at hother
        cases hother
        exact ⟨key, hkey, rfl, rfl, fun _ => by simpa using hunused, (by rintro ⟨⟩),
          .inl rfl⟩
      held held h := by
        obtain h | h := h <;> cases h
        exact ⟨hid, hreusable⟩
      sole _ := hfree
      known h := by cases h
      one h := by cases h
      kept h := by
        rw [hsearching.not_admitted] at h
        cases h
      rows _ h := .inl h }

theorem SoleHolder.respects_row {row : Node} (hsearching : (pool.phases i).Searching)
    (hrow : pool.state.db.getNodeByNodeKey (requests i).2.nodeKey = some row) :
    Respects keyPrefix id requests w₀ pool i ((pool.phases i).sawRow row) pool.state := by
  have hsaw : (pool.phases i).sawRow row =
      if row.machineAuthorized then .known else pool.phases i := by
    obtain h | ⟨held, h⟩ := hsearching <;> simp [h, KeyPhase.sawRow]
  rw [hsaw]
  split
  case isFalse => exact hinv.respects_same hrunning rfl fun _ h => h
  case isTrue hauthorized =>
    exact {
      key key hkey _ := ⟨key, hkey, rfl, rfl, (by rintro ⟨⟩), (by rintro ⟨⟩), .inl rfl⟩
      held held h := by obtain h | h := h <;> cases h
      sole h := by cases h
      known _ := by
        -- No other registration writes this row, so it was authorized from the start.
        have hrows := hinv.rows i (by simp [Db.authorizes, hrow, hauthorized])
        rwa [hsearching.not_admitted, or_iff_left Bool.false_ne_true] at hrows
      one h := by cases h
      kept h := by
        rw [hsearching.not_admitted] at h
        cases h
      rows _ h := .inl h }

theorem SoleHolder.respects_wrote (hφ : pool.phases i = .holding key)
    (hwrote : ∀ j key, pool.phases j = .wrote key → holdsKey pool j = true)
    (hkey : w.db.getPreAuthKey keyPrefix = pool.state.db.getPreAuthKey keyPrefix)
    (hrows : ∀ j, w.db.authorizes (requests j).2.nodeKey = true →
      pool.state.db.authorizes (requests j).2.nodeKey = true ∨ j = i) :
    Respects keyPrefix id requests w₀ pool i (.wrote key) w := by
  have hholds : holdsKey pool i = true := holds_of_phase hrunning (by rw [hφ]; rfl)
  obtain ⟨stored, hstored, _, _, hunused, hused⟩ := hinv.key
  exact {
    key other hother _ := by
      rw [hstored] at hother
      cases hother
      exact ⟨stored, hkey.trans hstored, rfl, rfl, fun _ => hunused i hholds, (by rintro ⟨⟩),
        .inl rfl⟩
    held held h := by
      obtain h | h := h <;> cases h
      exact hinv.held i key (.inl hφ)
    sole _ := hinv.others_free hholds
    known h := by cases h
    one _ j hne := by
      -- Another one that authorized its row either holds the key too or has marked it used.
      cases hj : pool.phases j with
      | before | known | holding => rfl
      | wrote other => exact (hne (hinv.sole j i (hwrote j other hj) hholds)).elim
      | finished =>
        have := hused j hj
        rw [hunused i hholds] at this
        cases this
    kept _ := rfl
    rows j hj := (hrows j hj).imp_right fun h => ⟨h, .inr rfl⟩ }

theorem SoleHolder.respects_marked (hφ : pool.phases i = .wrote key)
    (hmark : ∀ stored, pool.state.db.getPreAuthKey keyPrefix = some stored → stored.id = id →
      w.db.getPreAuthKey keyPrefix = some { stored with used := true })
    (hrows : ∀ nodeKey, w.db.authorizes nodeKey = pool.state.db.authorizes nodeKey) :
    Respects keyPrefix id requests w₀ pool i .finished w where
  key stored hstored hid := ⟨_, hmark stored hstored hid, rfl, rfl, (by rintro ⟨⟩),
    fun _ => rfl, .inr ⟨rfl, hinv.others_free (holds_of_phase hrunning (by rw [hφ]; rfl))⟩⟩
  held held h := by obtain h | h := h <;> cases h
  sole h := by cases h
  known h := by cases h
  one _ j hne := by
    by_contra hj
    exact hne (hinv.one j i (Bool.eq_true_of_not_eq_false hj) (by rw [hφ]; rfl))
  kept _ := rfl
  rows j hj := .inl ((hrows _).symm.trans hj)

theorem SoleHolder.respects_frame {c : Call} (hnodes : c.writes ≠ some .nodes)
    (hkeys : c.writes ≠ some .preAuthKeys) :
    Respects keyPrefix id requests w₀ pool i (pool.phases i) (handler c pool.state).2 := by
  have hsame := c.same_but pool.state
  refine hinv.respects_same hrunning ?_ fun nodeKey h => ?_
  · simp only [Db.getPreAuthKey, hsame.preAuthKeys hkeys]
  · rwa [Db.authorizes_congr (hsame.nodes hnodes)] at h

variable (hdistinct : Function.Injective fun i => (requests i).2.nodeKey)
  (hwrote : ∀ j key, pool.phases j = .wrote key → holdsKey pool j = true)

include hdistinct hwrote in
theorem SoleHolder.respects_upsert {node : Node}
    (hallowed : (pool.phases i).mayWrite (requests i).2.nodeKey node)
    (hwhole : WholeWrite pool.state.db node) :
    Respects keyPrefix id requests w₀ pool i
      ((pool.phases i).afterStore keyPrefix (.upsertNode node) (pool.state.db.upsertNode node).1)
      (handler (.store (.upsertNode node)) pool.state).2 := by
  have hkey : (pool.state.db.upsertNode node).2.getPreAuthKey keyPrefix =
      pool.state.db.getPreAuthKey keyPrefix := by
    obtain ⟨nodes, last, htables⟩ := Db.others_upsert pool.state.db node
    simp only [Db.getPreAuthKey, htables]
  cases hrun : (pool.state.db.upsertNode node).1 with
  | error error =>
    obtain hok | hsame := hwhole
    · rw [hrun] at hok
      cases hok
    · exact hinv.respects_same hrunning hkey fun nodeKey h => by
        rwa [show Db.authorizes (handler (.store (.upsertNode node)) pool.state).2.db nodeKey = _
          from Db.authorizes_congr (congrArg Tables.nodes hsame) nodeKey] at h
  | ok stored =>
    change Respects keyPrefix id requests w₀ pool i
      (if node.machineAuthorized then (pool.phases i).authorized else pool.phases i) _
    split
    case isFalse hnot =>
      exact hinv.respects_same hrunning hkey fun nodeKey h =>
        (Db.authorizes_upsert h).resolve_right fun hnode => hnot hnode.2
    case isTrue hauthorized =>
      have hrows (hnodeKey : node.nodeKey = (requests i).2.nodeKey) (j : ι)
          (h : (pool.state.db.upsertNode node).2.authorizes (requests j).2.nodeKey = true) :
          pool.state.db.authorizes (requests j).2.nodeKey = true ∨ j = i :=
        (Db.authorizes_upsert h).imp_right fun hnode => hdistinct (hnode.1.symm.trans hnodeKey)
      cases hφ : pool.phases i with
      | before =>
        rw [hφ] at hallowed
        exact absurd hauthorized (by simp [hallowed.2])
      | wrote | finished =>
        rw [hφ] at hallowed
        exact hallowed.elim
      | holding key =>
        rw [hφ] at hallowed
        exact hinv.respects_wrote hrunning hφ hwrote hkey (hrows hallowed)
      | known =>
        rw [hφ] at hallowed
        have hsame := hinv.respects_same hrunning rfl fun _ h => h
        rw [hφ] at hsame
        exact { hsame with
          key := fun stored hstored hid => by
            obtain ⟨key', hkey', hrest⟩ := hsame.key stored hstored hid
            exact ⟨key', hkey.trans hkey', hrest⟩
          rows := fun j hj => (hrows hallowed j hj).imp_right fun h =>
            ⟨h, .inl (hinv.known i hφ)⟩ }

include hdistinct hwrote in
theorem SoleHolder.respects {c : Call}
    (hallowed : (keyProtocols keyPrefix requests i).allowed (pool.phases i) c)
    (hcond : Undisturbed keyPrefix pool i c) :
    Respects keyPrefix id requests w₀ pool i
      ((keyProtocols keyPrefix requests i).next (pool.phases i) c (handler c pool.state).1)
      (handler c pool.state).2 := by
  cases c with
  | memory c => exact hinv.respects_frame (c := .memory c) hrunning (by rintro ⟨⟩) (by rintro ⟨⟩)
  | env c => exact hinv.respects_frame (c := .env c) hrunning (by rintro ⟨⟩) (by rintro ⟨⟩)
  | store c =>
    cases c with
    | upsertNode node => exact hinv.respects_upsert hrunning hdistinct hwrote hallowed hcond
    | deleteNode deleted =>
      refine hinv.respects_same hrunning ?_ fun nodeKey h => Db.authorizes_delete h
      have hsame := Call.same_but (.store (.deleteNode deleted)) pool.state
      simp only [Db.getPreAuthKey, hsame.preAuthKeys (by rintro ⟨⟩)]
    | createPreAuthKey new =>
      have hsame := Call.same_but (.store (.createPreAuthKey new)) pool.state
      obtain ⟨key, hkey, _⟩ := hinv.key
      refine hinv.respects_same hrunning ?_ fun nodeKey h => ?_
      · exact (Db.get_key_create hkey new).trans hkey.symm
      · rwa [Db.authorizes_congr (hsame.nodes (by rintro ⟨⟩))] at h
    | revokePreAuthKey revoked => exact hallowed.elim
    | markPreAuthKeyUsed marked =>
      obtain ⟨key, hφ, rfl⟩ := hallowed
      have hsame := Call.same_but (.store (.markPreAuthKeyUsed key.id)) pool.state
      change Respects keyPrefix id requests w₀ pool i (pool.phases i).marked _
      rw [hφ]
      refine hinv.respects_marked hrunning hφ (fun stored hstored hid => ?_) fun nodeKey =>
        Db.authorizes_congr (hsame.nodes (by rintro ⟨⟩)) nodeKey
      rw [(hinv.held i key (.inr hφ)).1, ← hid]
      exact Db.get_key_mark hstored
    | getPreAuthKey asked =>
      change Respects keyPrefix id requests w₀ pool i
        ((pool.phases i).afterStore keyPrefix (.getPreAuthKey asked)
          (.ok (pool.state.db.getPreAuthKey asked))) pool.state
      cases hfound : pool.state.db.getPreAuthKey asked with
      | none => exact hinv.respects_same hrunning rfl fun _ h => h
      | some key =>
        change Respects keyPrefix id requests w₀ pool i
          (if asked = keyPrefix then (pool.phases i).found key else pool.phases i) _
        split
        case isFalse => exact hinv.respects_same hrunning rfl fun _ h => h
        case isTrue hasked =>
          obtain hsearching | ⟨hstays, _⟩ := (pool.phases i).searching_or
          · exact hinv.respects_found hrunning hsearching (hasked ▸ hfound) (hcond hasked)
          · rw [hstays]
            exact hinv.respects_same hrunning rfl fun _ h => h
    | getNodeByNodeKey asked =>
      change Respects keyPrefix id requests w₀ pool i
        ((pool.phases i).afterStore keyPrefix (.getNodeByNodeKey asked)
          (.ok (pool.state.db.getNodeByNodeKey asked))) pool.state
      cases hfound : pool.state.db.getNodeByNodeKey asked with
      | none => exact hinv.respects_same hrunning rfl fun _ h => h
      | some row =>
        obtain hsearching | ⟨_, hstays⟩ := (pool.phases i).searching_or
        · have hasked : asked = (requests i).2.nodeKey := hallowed
          exact hinv.respects_row hrunning hsearching (hasked ▸ hfound)
        · change Respects keyPrefix id requests w₀ pool i ((pool.phases i).sawRow row) _
          rw [hstays]
          exact hinv.respects_same hrunning rfl fun _ h => h
    | _ => exact hinv.respects_frame (c := .store _) hrunning (by rintro ⟨⟩) (by rintro ⟨⟩)

end Calls

variable [DecidableEq ι]

theorem OneMoved.advance {π : ι → Protocol signature KeyPhase} {c : Call}
    {next : signature.Answer c → ControlM Unit} :
    OneMoved pool (pool.advance handler π i c next) i where
  phases _ hne := Pool.phases_advance_of_ne hne
  holds _ hne := by
    simp only [holdsKey, Pool.ended_advance_of_ne hne, Pool.phases_advance_of_ne hne]

omit [DecidableEq ι] in
/-- A registration that authorized its row with a single-use key has not ended before its mark. -/
theorem SoleHolder.wrote_holds (hinv : SoleHolder keyPrefix id requests w₀ pool)
    (hobeys : pool.Obeys (keyProtocols keyPrefix requests) fun _ => KeyPhase.MayEnd)
    (hφ : pool.phases i = .wrote key) : holdsKey pool i = true := by
  cases hended : pool.ended i with
  | false => exact holds_of_phase hended (by rw [hφ]; rfl)
  | true =>
    have hreusable := hobeys.ended hended key hφ
    rw [(hinv.held i key (.inr hφ)).2] at hreusable
    cases hreusable

theorem key_protocol_expects (nodeKey : NodeKey) (φ : KeyPhase) (c : Call) (w : World) :
    (keyProtocol keyPrefix nodeKey).expects φ c (handler c w).1 := by
  cases c with
  | memory c => trivial
  | env c => trivial
  | store c =>
    cases c with
    | getNodeByNodeKey asked =>
      change AnswersKey asked (.ok (w.db.getNodeByNodeKey asked))
      cases hrow : w.db.getNodeByNodeKey asked with
      | none => trivial
      | some row => exact (Db.get_node_by_node_key_eq_some.mp hrow).2
    | _ => trivial

/-- Under every interleaving of any number of registrations of different node keys that present a
single-use key, in which no lookup of the key falls between another registration's lookup and its
mark, at most one of them gets a newly authorized row. -/
theorem single_use_key_admits_one {cp : ControlPlane} {key : PreAuthKey}
    (hkey : w₀.db.getPreAuthKey keyPrefix = some key) (hsingle : key.reusable = false)
    (hpresents : ∀ i, Presents keyPrefix (requests i).2)
    (hdistinct : Function.Injective fun i => (requests i).2.nodeKey) {schedule : List ι}
    (hmeets : (registrations cp requests w₀).Meets handler (keyProtocols keyPrefix requests)
      (Undisturbed keyPrefix) schedule) :
    {i | NewlyAuthorized w₀ ((registrations cp requests w₀).run handler
      (keyProtocols keyPrefix requests) schedule).state (requests i).2.nodeKey}.Subsingleton := by
  have hstart : SoleHolder keyPrefix key.id requests w₀ (registrations cp requests w₀) := {
    key :=
      ⟨key, hkey, rfl, hsingle, fun i h => by simp [holdsKey, registrations, KeyPhase.holds] at h,
      fun _ h => by cases h⟩
    held := fun _ _ h => by obtain h | h := h <;> cases h
    sole := fun i _ h => by simp [holdsKey, registrations, KeyPhase.holds] at h
    known := fun _ h => by cases h
    one := fun _ _ h => by cases h
    rows := fun _ h => .inl h }
  have hend := (Pool.run_invariant (E := fun _ => KeyPhase.MayEnd)
    (I := SoleHolder keyPrefix key.id requests w₀) ?_ (fun i => register_obeys (hpresents i)) hstart
    hmeets).2
  · rintro i ⟨hi, hnew⟩ j ⟨hj, hnew'⟩
    exact hend.one i j ((hend.rows i hi).resolve_left (by simp [hnew]))
      ((hend.rows j hj).resolve_left (by simp [hnew']))
  intro pool hobeys hinv i c next hthread hcond
  have hrunning := Pool.ended_of_call hthread
  refine ⟨key_protocol_expects _ _ c pool.state, hinv.step .advance ?_⟩
  rw [Pool.phases_advance_self]
  exact hinv.respects hrunning hdistinct (fun j held hj => hinv.wrote_holds hobeys hj)
    (hobeys.allowed hthread) hcond

end Pool

def oneKey : World :=
  (Op.createPreAuthKey "once" false false none none).exec openServer
    (openServer.withStore Db.empty stillEnv)

theorem one_key_stored : (oneKey.db.getPreAuthKey "once").isSome := by decide +kernel

def rivals (second : Bool) : MachineKey × RegisterRequest :=
  let key := if second then 2 else 1
  (⟨key⟩, { version := 113, nodeKey := ⟨key⟩, auth := some { authKey := "hskey-auth-once-token" } })

def rivalsUnder (schedule : List Bool) : World :=
  ((registrations openServer rivals oneKey).run handler (keyProtocols "once" rivals) schedule).state

/-- The second registration starts when the first has ended. -/
def inTurn : List Bool := List.replicate 15 false ++ List.replicate 12 true

/-- One after the other, the first registration is admitted and no other. -/
theorem single_use_key_admits_one_in_turn :
    NewlyAuthorized oneKey (rivalsUnder inTurn) (rivals false).2.nodeKey ∧
      {i | NewlyAuthorized oneKey (rivalsUnder inTurn) (rivals i).2.nodeKey}.Subsingleton := by
  refine ⟨by decide +kernel, ?_⟩
  exact single_use_key_admits_one (Option.some_get one_key_stored).symm (by decide +kernel)
    (fun _ => ⟨rfl, _, "token", rfl, by decide +kernel⟩) (by decide +kernel) (by decide +kernel)

/-- The second registration runs between the first one's lookup of the key and its mark. -/
def between : List Bool :=
  List.replicate 9 false ++ List.replicate 12 true ++ List.replicate 6 false

/-- Two registrations that both look the key up before either marks it are both admitted. -/
theorem single_use_key_shared :
    (oneKey.db.getPreAuthKey "once").map PreAuthKey.reusable = some false ∧
      NewlyAuthorized oneKey (rivalsUnder between) (rivals false).2.nodeKey ∧
      NewlyAuthorized oneKey (rivalsUnder between) (rivals true).2.nodeKey := by
  decide +kernel

end Crabscale.Control
