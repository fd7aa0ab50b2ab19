import Mathlib.Data.List.AList
import Mathlib.Data.List.Destutter
import Mathlib.Data.List.Sort
import Mathlib.Data.String.Basic
import Std.Data.ExtTreeMap
import Std.Data.ExtTreeSet

/-!
# The collections of the Rust standard library

`BTreeMap` and `BTreeSet` are the extensional tree maps and sets of Lean's standard library, which
iterate in key order; an iteration of a `HashMap` or `HashSet` whose order can be observed takes the
order as an argument. `Vec::sort` followed by `Vec::dedup` on strings is `sortDedup`.
-/

namespace Crabscale.Rust

abbrev BTreeMap (κ ν : Type) [Ord κ] : Type := Std.ExtTreeMap κ ν compare

abbrev BTreeSet (κ : Type) [Ord κ] : Type := Std.ExtTreeSet κ compare

/-- `entry(key).or_default().push(value)` on a map of vectors. -/
def pushEntry {κ ν : Type} [Ord κ] [Std.TransOrd κ] (map : BTreeMap κ (List ν)) (key : κ)
    (value : ν) : BTreeMap κ (List ν) :=
  map.alter key fun values => some (values.getD [] ++ [value])

/-- `entry(key).or_default()` on a map of vectors. -/
def touchEntry {κ ν : Type} [Ord κ] [Std.TransOrd κ] (map : BTreeMap κ (List ν)) (key : κ) :
    BTreeMap κ (List ν) :=
  map.alter key fun values => some (values.getD [])

def BTreeMap.from {κ ν : Type} [Ord κ] [Std.TransOrd κ] (entries : List (κ × ν)) :
    BTreeMap κ ν :=
  entries.foldl (fun map entry => map.insert entry.1 entry.2) ∅

/-- `sort` then `dedup` on a vector of strings. -/
def sortDedup (items : List String) : List String :=
  (items.insertionSort (· ≤ ·)).destutter (· ≠ ·)

@[simp] theorem mem_sort_dedup {items : List String} {s : String} :
    s ∈ sortDedup items ↔ s ∈ items := by
  have hsorted : (items.insertionSort (· ≤ ·)).Pairwise (· ≤ ·) :=
    List.pairwise_insertionSort _ _
  rw [sortDedup, hsorted.destutter_eq_dedup, List.mem_dedup, List.mem_insertionSort]

theorem pairwise_sort_dedup (items : List String) : (sortDedup items).Pairwise (· ≤ ·) :=
  (List.pairwise_insertionSort (· ≤ ·) items).sublist (List.destutter_sublist _ _)

theorem nodup_sort_dedup (items : List String) : (sortDedup items).Nodup := by
  have hsorted : (items.insertionSort (· ≤ ·)).Pairwise (· ≤ ·) :=
    List.pairwise_insertionSort _ _
  rw [sortDedup, hsorted.destutter_eq_dedup]
  exact List.nodup_dedup _

theorem sort_dedup_idem (items : List String) : sortDedup (sortDedup items) = sortDedup items := by
  have hsorted := pairwise_sort_dedup items
  unfold sortDedup at hsorted ⊢
  rw [hsorted.insertionSort_eq, List.destutter_idem]

/-! ## The last of some items -/

section LastOf

variable {α β : Type} {f : α → Option β} {items : List α}

def lastOf (f : α → Option β) (items : List α) : Option β := (items.filterMap f).getLast?

theorem last_of_append (f : α → Option β) (items : List α) (item : α) :
    lastOf f (items ++ [item]) = (f item).or (lastOf f items) := by
  unfold lastOf
  rw [List.filterMap_append]
  cases hitem : f item with
  | none => simp [hitem]
  | some value => simp [hitem]

theorem exists_mem_of_last_of {value : β} (h : lastOf f items = some value) :
    ∃ item ∈ items, f item = some value :=
  List.mem_filterMap.mp (List.mem_of_getLast? h)

theorem last_of_of_mem {item : α} {value : β} (hitem : item ∈ items)
    (hvalue : f item = some value) : ∃ last, lastOf f items = some last :=
  ⟨_, List.getLast?_eq_some_getLast
    (List.ne_nil_of_mem (List.mem_filterMap.mpr ⟨item, hitem, hvalue⟩))⟩

end LastOf

/-! ## Loops that accumulate -/

theorem lookup_cons_eq {κ ν : Type} [DecidableEq κ] (key : κ) (value : ν) (rest : List (κ × ν))
    (k : κ) : ((key, value) :: rest).lookup k = if k = key then some value else rest.lookup k := by
  rw [List.lookup_cons]
  split
  case h_1 h => rw [if_pos (beq_iff_eq.mp h)]
  case h_2 h => rw [if_neg (beq_eq_false_iff_ne.mp h)]

theorem lookup_map_of_nodup {κ ν α : Type} [DecidableEq κ] {key : α → κ} {f : α → ν} {a : α}
    {items : List α} (hkeys : (items.map key).Nodup) (ha : a ∈ items) :
    (items.map fun item => (key item, f item)).lookup (key a) = some (f a) := by
  induction items with
  | nil => cases ha
  | cons item items ih =>
    obtain ⟨hnew, hkeys⟩ := List.nodup_cons.mp hkeys
    rw [List.map_cons, lookup_cons_eq]
    obtain rfl | ha := List.mem_cons.mp ha
    · exact if_pos rfl
    · rw [if_neg fun heq => hnew (List.mem_map.mpr ⟨a, ha, heq⟩)]
      exact ih hkeys ha

/-- A property that each step of a loop establishes exactly from its own element holds at the end
when it held at the start or some element established it. -/
theorem foldl_iff_exists {α β : Type} {step : β → α → β} {P : β → Prop} {Q : α → Prop}
    (hstep : ∀ acc a, P (step acc a) ↔ P acc ∨ Q a) (items : List α) (acc : β) :
    P (items.foldl step acc) ↔ P acc ∨ ∃ a ∈ items, Q a := by
  induction items generalizing acc with
  | nil => simp
  | cons a items ih => simp only [List.foldl_cons, ih, hstep, List.exists_mem_cons_iff, or_assoc]

theorem foldl_append_flatMap {α β γ : Type} {step : β → α → β} {L : β → List γ} {f : α → List γ}
    (hstep : ∀ acc a, L (step acc a) = L acc ++ f a) (items : List α) (acc : β) :
    L (items.foldl step acc) = L acc ++ items.flatMap f := by
  induction items generalizing acc with
  | nil => simp
  | cons a items ih => rw [List.foldl_cons, ih, hstep, List.flatMap_cons, List.append_assoc]

theorem flatMap_filter_of_nil {α γ : Type} {items : List α} {keep : α → Bool} {f : α → List γ}
    (h : ∀ a ∈ items, keep a = false → f a = []) : (items.filter keep).flatMap f =
    items.flatMap f := by
  induction items with
  | nil => rfl
  | cons a items ih =>
    have hrest := ih fun b hb => h b (List.mem_cons_of_mem _ hb)
    cases hkeep : keep a with
    | true => rw [List.filter_cons_of_pos hkeep, List.flatMap_cons, hrest, List.flatMap_cons]
    | false =>
      rw [List.filter_cons_of_neg (by simp [hkeep]), hrest, List.flatMap_cons,
        h a List.mem_cons_self hkeep, List.nil_append]

section Entries

variable {κ ν : Type} [Ord κ] [Std.TransOrd κ]

def entriesAt (map : BTreeMap κ (List ν)) (key : κ) : List ν := (map[key]?).getD []

@[simp] theorem entries_at_empty (key : κ) : entriesAt (∅ : BTreeMap κ (List ν)) key = [] := by
  simp [entriesAt]

variable [Std.LawfulEqOrd κ]

theorem getElem?_push_entry (map : BTreeMap κ (List ν)) (key other : κ) (value : ν)
    [DecidableEq κ] :
    (pushEntry map key value)[other]? =
      if key = other then some ((map[key]?).getD [] ++ [value]) else map[other]? := by
  simp [pushEntry, Std.ExtTreeMap.getElem?_alter]

theorem getElem?_touch_entry (map : BTreeMap κ (List ν)) (key other : κ) [DecidableEq κ] :
    (touchEntry map key)[other]? =
      if key = other then some ((map[key]?).getD []) else map[other]? := by
  simp [touchEntry, Std.ExtTreeMap.getElem?_alter]

theorem entries_at_push [DecidableEq κ] {map : BTreeMap κ (List ν)} {key other : κ} {value : ν} :
    entriesAt (pushEntry map key value) other =
      entriesAt map other ++ if key = other then [value] else [] := by
  rw [entriesAt, getElem?_push_entry]
  split
  case isTrue heq => subst heq; rfl
  case isFalse => exact (List.append_nil _).symm

@[simp] theorem entries_at_touch [DecidableEq κ] {map : BTreeMap κ (List ν)} {key other : κ} :
    entriesAt (touchEntry map key) other = entriesAt map other := by
  rw [entriesAt, getElem?_touch_entry]
  split
  case isTrue heq => subst heq; rfl
  case isFalse => rfl

variable {α : Type} [DecidableEq κ] (keyOf : α → κ) (items : List α) (map : BTreeMap κ (List ν))

theorem entries_at_touch_all (key : κ) :
    entriesAt (items.foldl (fun map item => touchEntry map (keyOf item)) map) key =
      entriesAt map key := by
  rw [foldl_append_flatMap (L := fun map => entriesAt map key) (f := fun _ => [])]
  · simp
  · intro map item
    rw [entries_at_touch, List.append_nil]

theorem entries_at_push_kept (keep : α → Bool) (value : ν) (key : κ) :
    entriesAt ((items.filter keep).foldl (fun map item => pushEntry map (keyOf item) value) map)
      key = entriesAt map key ++
        items.flatMap fun item => if keep item = true ∧ keyOf item = key then [value] else [] := by
  rw [List.foldl_filter]
  apply foldl_append_flatMap (L := fun map => entriesAt map key)
  intro map item
  split
  case isTrue hkeep => simp only [hkeep, true_and, entries_at_push]
  case isFalse hdrop => rw [if_neg fun h => hdrop h.1, List.append_nil]

end Entries

/-! ## Entries with distinct keys -/

section DistinctKeys

variable {κ α β : Type}

variable {items : List α}

theorem nodup_map_append {key : α → κ} {item : α} (h : (items.map key).Nodup)
    (hnew : key item ∉ items.map key) : ((items ++ [item]).map key).Nodup := by
  rw [List.map_append]
  refine List.nodup_append'.mpr ⟨h, List.nodup_singleton _, ?_⟩
  rwa [List.map_singleton, List.disjoint_singleton]

theorem nodup_filterMap_keyed {key : α → κ} {key' : β → κ} {f : α → Option β}
    (hf : ∀ a ∈ items, ∀ b, f a = some b → key' b = key a)
    (hkeys : (items.map key).Nodup) : ((items.filterMap f).map key').Nodup := by
  refine List.Nodup.sublist ?_ hkeys
  clear hkeys
  induction items with
  | nil => simp
  | cons a items ih =>
    have ih := ih fun a ha => hf a (List.mem_cons_of_mem _ ha)
    cases hfa : f a with
    | none => rw [List.filterMap_cons_none hfa]; exact ih.cons _
    | some b =>
      rw [List.filterMap_cons_some hfa, List.map_cons, List.map_cons,
        hf a List.mem_cons_self b hfa]
      exact ih.cons_cons _

/-- Where only the entries with one key give anything, the list gives what the entry with that key
gives. -/
theorem flatMap_eq_of_nodup (key : α → κ) {a : α} {f : α → List β}
    (hkeys : (items.map key).Nodup) (ha : a ∈ items)
    (hf : ∀ b ∈ items, key b ≠ key a → f b = []) : items.flatMap f = f a := by
  induction items with
  | nil => cases ha
  | cons b items ih =>
    obtain ⟨hb, hkeys⟩ := List.nodup_cons.mp hkeys
    rw [List.flatMap_cons]
    cases ha with
    | head =>
      have hrest : items.flatMap f = [] := List.flatMap_eq_nil_iff.mpr fun c hc =>
        hf c (List.mem_cons_of_mem _ hc) fun hkey => hb (List.mem_map.mpr ⟨c, hc, hkey⟩)
      rw [hrest, List.append_nil]
    | tail _ ha =>
      rw [ih hkeys ha fun c hc => hf c (List.mem_cons_of_mem _ hc),
        hf b List.mem_cons_self fun hkey => hb (List.mem_map.mpr ⟨a, ha, hkey.symm⟩),
        List.nil_append]

variable [DecidableEq κ]

theorem find?_eq_none_of_nodup {key : α → κ} {a : α}
    (hkeys : ((a :: items).map key).Nodup) : items.find? (fun b => key b = key a) = none := by
  rw [List.map_cons, List.nodup_cons] at hkeys
  simp only [List.find?_eq_none, decide_eq_true_eq]
  intro b hb heq
  exact hkeys.1 (List.mem_map.mpr ⟨b, hb, heq⟩)

theorem find?_eq_some_of_nodup (key : α → κ) {a : α}
    (hkeys : (items.map key).Nodup) (ha : a ∈ items) :
    items.find? (fun b => key b = key a) = some a := by
  obtain ⟨b, hb⟩ : ∃ b, items.find? (fun b => key b = key a) = some b :=
    Option.isSome_iff_exists.mp (List.find?_isSome.mpr ⟨a, ha, decide_eq_true rfl⟩)
  rw [hb, List.inj_on_of_nodup_map hkeys (List.mem_of_find?_eq_some hb) ha
    (by simpa using List.find?_some hb)]

theorem find?_eq_some_iff_of_nodup (key : α → κ) (hkeys : (items.map key).Nodup) {a : α} {k : κ} :
    items.find? (fun b => key b == k) = some a ↔ a ∈ items ∧ key a = k := by
  constructor
  · intro h
    exact ⟨List.mem_of_find?_eq_some h, by simpa using List.find?_some h⟩
  · rintro ⟨ha, rfl⟩
    simpa only [beq_eq_decide] using find?_eq_some_of_nodup key hkeys ha

theorem find?_filterMap_keyed {key : α → κ} {key' : β → κ} {f : α → Option β}
    (hf : ∀ a ∈ items, ∀ b, f a = some b → key' b = key a) (hkeys : (items.map key).Nodup) (k : κ) :
    (items.filterMap f).find? (fun b => key' b = k) =
      (items.find? fun a => key a = k).bind f := by
  induction items with
  | nil => rfl
  | cons a items ih =>
    have ih := ih (fun a ha => hf a (List.mem_cons_of_mem _ ha)) (List.nodup_cons.mp hkeys).2
    cases hfa : f a with
    | none =>
      rw [List.filterMap_cons_none hfa, ih]
      by_cases hk : key a = k
      · subst hk
        simp [find?_eq_none_of_nodup hkeys, hfa]
      · simp [hk]
    | some b =>
      rw [List.filterMap_cons_some hfa, List.find?_cons, List.find?_cons,
        hf a List.mem_cons_self b hfa, ih]
      by_cases hk : key a = k <;> simp [hk, hfa]

theorem flatMap_keyed (key : α → κ) {entries : List α}
    (hkeys : (entries.map key).Nodup) (k : κ) {g : α → List β}
    (hg : ∀ entry ∈ entries, key entry ≠ k → g entry = []) :
    entries.flatMap g = ((entries.find? fun entry => key entry = k).map g).getD [] := by
  induction entries with
  | nil => rfl
  | cons entry entries ih =>
    have hrest := ih (List.nodup_cons.mp hkeys).2 fun other hother =>
      hg other (List.mem_cons_of_mem _ hother)
    rw [List.flatMap_cons, hrest]
    by_cases hk : key entry = k
    · subst hk
      simp [find?_eq_none_of_nodup hkeys]
    · rw [hg entry List.mem_cons_self hk]
      simp [hk]

end DistinctKeys

section KeyedLoops

variable {κ ν ε : Type} [Ord κ] [Std.TransOrd κ]

theorem nodup_keys_toList (map : BTreeMap κ ν) : (map.toList.map Prod.fst).Nodup := by
  rw [Std.ExtTreeMap.map_fst_toList_eq_keys]
  exact Std.ExtTreeMap.nodup_keys

variable [DecidableEq κ]

/-- A loop whose steps each rewrite only the value of their entry's key, over entries with distinct
keys: the value of a key at the end is rewritten once, by the entry with that key. -/
theorem getElem?_foldl_keyed {step : BTreeMap κ ν → ε → BTreeMap κ ν} (key : ε → κ)
    {f : ε → Option ν → Option ν} (hstep : ∀ map entry k, (step map entry)[k]? =
      if key entry = k then f entry map[k]? else map[k]?)
    {entries : List ε} (hkeys : (entries.map key).Nodup) (map : BTreeMap κ ν) (k : κ) :
    (entries.foldl step map)[k]? =
      match entries.find? (fun entry => key entry = k) with
      | some entry => f entry map[k]?
      | none => map[k]? := by
  induction entries generalizing map with
  | nil => rfl
  | cons entry entries ih =>
    rw [List.foldl_cons, ih (List.nodup_cons.mp hkeys).2, hstep]
    by_cases hk : key entry = k
    · subst hk
      simp [find?_eq_none_of_nodup hkeys]
    · simp [hk]

variable [Std.LawfulEqOrd κ]

theorem find?_toList (map : BTreeMap κ ν) (k : κ) :
    map.toList.find? (fun entry => entry.1 = k) = (map[k]?).map fun value => (k, value) := by
  cases hvalue : map[k]? with
  | none =>
    simp only [Option.map_none, List.find?_eq_none, decide_eq_true_eq]
    rintro ⟨key, value⟩ hmem rfl
    rw [Std.ExtTreeMap.mem_toList_iff_getElem?_eq_some, hvalue] at hmem
    cases hmem
  | some value =>
    exact find?_eq_some_of_nodup (a := (k, value)) Prod.fst (nodup_keys_toList map)
      (Std.ExtTreeMap.mem_toList_iff_getElem?_eq_some.mpr hvalue)

omit [DecidableEq κ] in
theorem mem_from {entries : List (κ × ν)} {k : κ} :
    k ∈ BTreeMap.from entries ↔ k ∈ entries.map Prod.fst := by
  suffices hfold : ∀ map : BTreeMap κ ν,
      k ∈ entries.foldl (fun map entry => map.insert entry.1 entry.2) map ↔
        k ∈ map ∨ k ∈ entries.map Prod.fst by
    refine (hfold ∅).trans (or_iff_right ?_)
    exact Std.ExtTreeMap.not_mem_empty
  intro map
  induction entries generalizing map with
  | nil => simp
  | cons entry entries ih =>
    rw [List.foldl_cons, ih, Std.ExtTreeMap.mem_insert, Std.compare_eq_iff_eq, List.map_cons,
      List.mem_cons, or_assoc, eq_comm, or_left_comm]

theorem getElem?_from {entries : List (κ × ν)} (hkeys : (entries.map Prod.fst).Nodup) (k : κ) :
    (BTreeMap.from entries)[k]? = (entries.find? fun entry => entry.1 = k).map Prod.snd := by
  rw [BTreeMap.from, getElem?_foldl_keyed Prod.fst (f := fun entry _ => some entry.2) _ hkeys]
  · cases entries.find? fun entry => entry.1 = k <;> simp
  · intro map entry k
    rw [Std.ExtTreeMap.getElem?_insert]
    simp

end KeyedLoops

/-! ## Hash maps and hash sets -/

/-- The map `HashMap<K, V>`. -/
abbrev HashMap (κ ν : Type) : Type := AList fun _ : κ => ν

/-- The set `HashSet<K>`. -/
structure HashSet (κ : Type) where
  items : List κ
  nodup : items.Nodup
  deriving DecidableEq

namespace HashSet

variable {κ : Type}

def empty : HashSet κ := ⟨[], List.nodup_nil⟩

instance : Membership κ (HashSet κ) := ⟨fun set item => item ∈ set.items⟩

instance [DecidableEq κ] (item : κ) (set : HashSet κ) : Decidable (item ∈ set) :=
  inferInstanceAs (Decidable (item ∈ set.items))

variable {set : HashSet κ}

def isEmpty (set : HashSet κ) : Bool := set.items.isEmpty

theorem is_empty_eq_false {item : κ} (h : item ∈ set) : set.isEmpty = false :=
  List.isEmpty_eq_false_iff.mpr (List.ne_nil_of_mem h)

theorem exists_mem (h : set.isEmpty = false) : ∃ item, item ∈ set :=
  List.exists_mem_of_ne_nil _ (List.isEmpty_eq_false_iff.mp h)

@[simp] theorem not_mem_empty (item : κ) : item ∉ (empty : HashSet κ) := List.not_mem_nil

variable [DecidableEq κ]

/-- Add an element. -/
def insert (set : HashSet κ) (item : κ) : HashSet κ := ⟨set.items.insert item, set.nodup.insert⟩

/-- Take an element out. -/
def remove (set : HashSet κ) (item : κ) : HashSet κ := ⟨set.items.erase item, set.nodup.erase item⟩

@[simp] theorem mem_insert {item other : κ} :
    other ∈ set.insert item ↔ other = item ∨ other ∈ set :=
  List.mem_insert_iff

@[simp] theorem mem_remove {item other : κ} :
    other ∈ set.remove item ↔ other ≠ item ∧ other ∈ set :=
  set.nodup.mem_erase_iff

end HashSet

namespace HashMap

variable {κ ν : Type} [DecidableEq κ]

def values (map : HashMap κ ν) : List ν := map.entries.map Sigma.snd

theorem mem_values {map : HashMap κ ν} {value : ν} :
    value ∈ values map ↔ ∃ key, map.lookup key = some value := by
  unfold values
  rw [List.mem_map]
  constructor
  · rintro ⟨⟨key, _⟩, hmem, rfl⟩
    exact ⟨key, AList.mem_lookup_iff.mpr hmem⟩
  · rintro ⟨key, hlookup⟩
    exact ⟨⟨key, value⟩, AList.mem_lookup_iff.mp hlookup, rfl⟩

theorem nodup_values_map {γ : Type} {map : HashMap κ ν} {f : ν → γ}
    (h : ∀ key key' value value', map.lookup key = some value → map.lookup key' = some value' →
      f value = f value' → key = key') : ((values map).map f).Nodup := by
  rw [values, List.map_map]
  refine map.nodupKeys.nodup.map_on ?_
  rintro ⟨key, value⟩ hmem ⟨key', value'⟩ hmem' heq
  have hvalue : map.lookup key = some value := AList.mem_lookup_iff.mpr hmem
  have hvalue' : map.lookup key' = some value' := AList.mem_lookup_iff.mpr hmem'
  obtain rfl := h key key' value value' hvalue hvalue' heq
  obtain rfl := Option.some.inj (hvalue.symm.trans hvalue')
  rfl

/-- `HashMap::retain`. -/
def retain (keep : κ → ν → Bool) (map : HashMap κ ν) : HashMap κ ν :=
  ⟨map.entries.filter fun entry => keep entry.1 entry.2,
    map.nodupKeys.sublist List.filter_sublist⟩

end HashMap

/-- An order in which a hash map is walked. -/
structure Iteration (κ : Type) where
  walk : List κ → List κ
  perm : ∀ keys, (walk keys).Perm keys

end Crabscale.Rust
