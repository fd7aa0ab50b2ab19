import Crabscale.Rust.Collections

/-!
# JSON documents of `serde_json`

A number is an unsigned integer, a negative integer or a float. An object is the list of its entries
in the order of the keys, which `insert` keeps; a value with such objects and no float is
`Canonical`. What is inserted is found again (`lookup_insert_all`).
-/

namespace Crabscale.Rust.SerdeJson

/-! ## Numbers -/

inductive Number where
  | posInt (value : UInt64)
  | negInt (value : Int64)
  | float (bits : UInt64)
  deriving DecidableEq

namespace Number

/-- The number of an `i64`. -/
def ofI64 (value : Int64) : Number := if value < 0 then negInt value else posInt value.toUInt64

/-- `as_i64`. -/
def asI64 : Number → Option Int64
  | posInt value => if value.toNat < 2 ^ 63 then some value.toInt64 else none
  | negInt value => some value
  | float _ => none

/-- `is_u64`. -/
def isU64 : Number → Bool
  | posInt _ => true
  | negInt _ | float _ => false

def asFloat : Number → Option UInt64
  | float bits => some bits
  | posInt _ | negInt _ => none

theorem as_i64_of_i64 (value : Int64) : (ofI64 value).asI64 = some value := by
  unfold ofI64
  split
  case isTrue => rfl
  case isFalse hneg =>
    have hsmall : value.toUInt64.toNat < 2 ^ 63 := by
      have hnonneg : 0 ≤ value.toInt := by
        have hle := Int64.le_iff_toInt_le.mp (Int64.not_lt.mp hneg)
        exact hle
      have hint : value.toInt = value.toBitVec.toInt := rfl
      rw [hint, BitVec.toInt_eq_toNat_cond] at hnonneg
      have hnat : value.toUInt64.toNat = value.toBitVec.toNat := rfl
      have hlt := value.toBitVec.isLt
      split at hnonneg <;> omega
    show (if value.toUInt64.toNat < 2 ^ 63 then some value.toUInt64.toInt64 else none) = some value
    rw [if_pos hsmall]
    exact congrArg some value.toInt64_toUInt64

end Number

/-! ## Values -/

inductive Value where
  | null
  | bool (value : Bool)
  | number (value : Number)
  | string (value : String)
  | array (items : List Value)
  | object (fields : List (String × Value))

namespace Value

def isFinite (bits : UInt64) : Bool := (bits >>> 52) &&& 0x7FF != 0x7FF

/-- The value of a float, which is `null` when the float is not finite. -/
def ofF64 (bits : UInt64) : Value := if isFinite bits then number (.float bits) else null

/-- `as_str`. -/
def asStr : Value → Option String
  | string value => some value
  | _ => none

/-- `as_array`. -/
def asArray : Value → Option (List Value)
  | array items => some items
  | _ => none

/-- `as_object`. -/
def asObject : Value → Option (List (String × Value))
  | object fields => some fields
  | _ => none

/-- `get` with a key. -/
def get (value : Value) (key : String) : Option Value := value.asObject.bind (·.lookup key)

end Value

/-! ## Objects -/

def insert : List (String × Value) → String → Value → List (String × Value)
  | [], key, value => [(key, value)]
  | (k, v) :: rest, key, value =>
    if key < k then (key, value) :: (k, v) :: rest
    else if key = k then (key, value) :: rest
    else (k, v) :: insert rest key value

def insertAll (entries fields : List (String × Value)) : List (String × Value) :=
  entries.foldl (fun fields entry => insert fields entry.1 entry.2) fields

theorem lookup_insert (fields : List (String × Value)) (key : String) (value : Value) (k : String) :
    (insert fields key value).lookup k = if k = key then some value else fields.lookup k := by
  induction fields with
  | nil => exact lookup_cons_eq key value [] k
  | cons field rest ih =>
    obtain ⟨k', v'⟩ := field
    unfold insert
    split
    · exact lookup_cons_eq key value _ k
    split
    case isTrue hkey =>
      subst hkey
      rw [lookup_cons_eq, lookup_cons_eq]
      split <;> rfl
    case isFalse hkey =>
      rw [lookup_cons_eq, lookup_cons_eq, ih]
      by_cases h : k = k'
      · have hne : k ≠ key := fun heq => hkey (heq.symm.trans h)
        rw [if_pos h, if_neg hne, if_pos h]
      · rw [if_neg h, if_neg h]

theorem lookup_insert_all {entries : List (String × Value)}
    (hnodup : (entries.map Prod.fst).Nodup) (fields : List (String × Value)) (k : String) :
    (insertAll entries fields).lookup k = (entries.lookup k).or (fields.lookup k) := by
  unfold insertAll
  induction entries generalizing fields with
  | nil => rfl
  | cons entry entries ih =>
    obtain ⟨key, value⟩ := entry
    rw [List.map_cons, List.nodup_cons] at hnodup
    rw [List.foldl_cons, ih hnodup.2, lookup_insert, lookup_cons_eq]
    by_cases h : k = key
    · subst h
      have hnone : entries.lookup k = none := by
        rw [List.lookup_eq_none_iff]
        intro entry hmem
        have hne : k ≠ entry.1 := fun heq => hnodup.1 (List.mem_map.mpr ⟨entry, hmem, heq.symm⟩)
        simpa using hne
      rw [hnone, if_pos rfl, if_pos rfl]
      rfl
    · rw [if_neg h, if_neg h]

theorem mem_insert {fields : List (String × Value)} {key : String} {value : Value}
    {field : String × Value} (h : field ∈ insert fields key value) :
    field = (key, value) ∨ field ∈ fields := by
  induction fields with
  | nil => exact .inl (List.mem_singleton.mp h)
  | cons first rest ih =>
    obtain ⟨k, v⟩ := first
    unfold insert at h
    split at h
    · exact List.mem_cons.mp h
    split at h
    · exact (List.mem_cons.mp h).imp_right (List.mem_cons_of_mem _)
    · obtain rfl | hrest := List.mem_cons.mp h
      · exact .inr List.mem_cons_self
      · exact (ih hrest).imp_right (List.mem_cons_of_mem _)

theorem mem_insert_all {entries fields : List (String × Value)} {field : String × Value}
    (h : field ∈ insertAll entries fields) : field ∈ entries ∨ field ∈ fields := by
  unfold insertAll at h
  induction entries generalizing fields with
  | nil => exact .inr h
  | cons entry entries ih =>
    obtain hmem | hmem := ih h
    · exact .inl (List.mem_cons_of_mem _ hmem)
    · obtain rfl | hmem := mem_insert hmem
      · exact .inl List.mem_cons_self
      · exact .inr hmem

/-- The keys of an object are in order. -/
def Ordered (fields : List (String × Value)) : Prop := fields.Pairwise fun a b => a.1 < b.1

theorem Ordered.insert {fields : List (String × Value)} (h : Ordered fields) (key : String)
    (value : Value) : Ordered (insert fields key value) := by
  induction fields with
  | nil => exact List.pairwise_singleton _ _
  | cons first rest ih =>
    obtain ⟨k, v⟩ := first
    obtain ⟨hfirst, hrest⟩ := List.pairwise_cons.mp h
    unfold SerdeJson.insert
    split
    case isTrue hlt =>
      refine List.pairwise_cons.mpr ⟨List.forall_mem_cons.mpr ⟨hlt, fun field hmem => ?_⟩, h⟩
      exact hlt.trans (hfirst field hmem)
    case isFalse hnlt =>
    split
    case isTrue heq => exact List.pairwise_cons.mpr ⟨heq ▸ hfirst, hrest⟩
    case isFalse hne =>
      have hgt : k < key := lt_of_le_of_ne (not_lt.mp hnlt) (Ne.symm hne)
      refine List.pairwise_cons.mpr ⟨fun field hmem => ?_, ih hrest⟩
      obtain rfl | hmem := mem_insert hmem
      · exact hgt
      · exact hfirst field hmem

inductive Canonical : Value → Prop where
  | null : Canonical .null
  | bool (value : Bool) : Canonical (.bool value)
  | posInt (value : UInt64) : Canonical (.number (.posInt value))
  | negInt (value : Int64) : Canonical (.number (.negInt value))
  | string (value : String) : Canonical (.string value)
  | array {items : List Value} (hitems : ∀ item ∈ items, Canonical item) : Canonical (.array items)
  | object {fields : List (String × Value)} (hordered : Ordered fields)
      (hfields : ∀ field ∈ fields, Canonical field.2) : Canonical (.object fields)

theorem canonical_of_i64 (value : Int64) : Canonical (.number (.ofI64 value)) := by
  unfold Number.ofI64
  split
  · exact .negInt value
  · exact .posInt _

theorem canonical_insert_all {entries : List (String × Value)}
    (h : ∀ entry ∈ entries, Canonical entry.2) : Canonical (.object (insertAll entries [])) := by
  have hfold (fields : List (String × Value)) (hordered : Ordered fields)
      (hfields : ∀ field ∈ fields, Canonical field.2) :
      Canonical (.object (insertAll entries fields)) := by
    unfold insertAll
    induction entries generalizing fields with
    | nil => exact .object hordered hfields
    | cons entry entries ih =>
      obtain ⟨hentry, hrest⟩ := List.forall_mem_cons.mp h
      refine ih hrest _ (hordered.insert _ _) fun field hmem => ?_
      obtain rfl | hmem := mem_insert hmem
      · exact hentry
      · exact hfields field hmem
  exact hfold [] List.Pairwise.nil (List.forall_mem_nil _)

end Crabscale.Rust.SerdeJson
