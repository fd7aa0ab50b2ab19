import Mathlib.Data.Fintype.Basic
import Mathlib.Data.List.Nodup
import Mathlib.Logic.Function.Basic

/-!
# Serial orders of read-modify-write operations

Operations that each read a part of a shared value once and then write at most once, as a function
of what they read. When no write happens while another operation is *pending* between its two
accesses, the value is what the settled operations give in the order in which they settled
(`Serial`, `Serial.complete`).
-/

namespace Crabscale.Interaction

/-- How far an operation has got. -/
inductive Access (R : Type) where
  | start
  | saw (seen : R)
  | wrote
  deriving DecidableEq

def Access.read {R : Type} : Access R → R → Access R
  | .start, seen => .saw seen
  | .saw first, _ => .saw first
  | .wrote, _ => .wrote

/-- An operation has done all it does to the value. -/
def Settled {R W : Type} (edit : R → Option W) : Access R → Prop
  | .start => False
  | .saw seen => edit seen = none
  | .wrote => True

/-- An operation is between its read and its write. -/
def Pending {R W : Type} (edit : R → Option W) : Access R → Prop
  | .saw seen => edit seen ≠ none
  | .start | .wrote => False

instance {R W : Type} (edit : R → Option W) : (access : Access R) → Decidable (Pending edit access)
  | .start | .wrote => isFalse id
  | .saw seen => inferInstanceAs (Decidable (edit seen ≠ none))

section Serial

variable {ι V R W : Type} (view : V → R) (edit : ι → R → Option W) (put : W → V → V)

/-- An operation with nothing in between. -/
def effect (v : V) (i : ι) : V :=
  match edit i (view v) with
  | none => v
  | some written => put written v

/-- The value is what the settled operations give in some order, and what a pending operation read
is still there. -/
structure Serial (v₀ : V) (accesses : ι → Access R) (order : List ι) (v : V) : Prop where
  nodup : order.Nodup
  settled : ∀ i, i ∈ order ↔ Settled (edit i) (accesses i)
  value : v = order.foldl (effect view edit put) v₀
  current : ∀ i seen, accesses i = .saw seen → edit i seen ≠ none → seen = view v

variable {view edit put} {v₀ v : V} {accesses : ι → Access R} {order : List ι}

theorem effect_none {i : ι} (h : edit i (view v) = none) : effect view edit put v i = v := by
  simp only [effect, h]

theorem effect_some {i : ι} {written : W} (h : edit i (view v) = some written) :
    effect view edit put v i = put written v := by
  simp only [effect, h]

theorem serial_start (v : V) : Serial view edit put v (fun _ => .start) [] v where
  nodup := List.nodup_nil
  settled _ := ⟨nofun, nofun⟩
  value := rfl
  current _ _ := nofun

variable [DecidableEq ι]

theorem Serial.settle (h : Serial view edit put v₀ accesses order v) {i : ι} (access : Access R)
    (hbefore : ¬Settled (edit i) (accesses i)) (hsettled : Settled (edit i) access)
    (hcurrent : ∀ j seen, j ≠ i → accesses j = .saw seen → edit j seen ≠ none →
      seen = view (effect view edit put v i)) :
    Serial view edit put v₀ (Function.update accesses i access) (order ++ [i])
      (effect view edit put v i) where
  nodup := by
    rw [List.nodup_append_comm, List.singleton_append, List.nodup_cons]
    exact ⟨fun hmem => hbefore ((h.settled i).mp hmem), h.nodup⟩
  settled j := by
    obtain rfl | hne := eq_or_ne j i
    · simp [hsettled]
    · simp [hne, h.settled j]
  value := by rw [List.foldl_append, ← h.value, List.foldl_cons, List.foldl_nil]
  current j seen hj hpending := by
    obtain rfl | hne := eq_or_ne j i
    · rw [Function.update_self] at hj
      subst hj
      exact (hpending hsettled).elim
    · rw [Function.update_of_ne hne] at hj
      exact hcurrent j seen hne hj hpending

theorem Serial.read (h : Serial view edit put v₀ accesses order v) {i : ι}
    (hstart : accesses i = .start) :
    ∃ order', Serial view edit put v₀ (Function.update accesses i (.saw (view v))) order' v := by
  have hbefore : ¬Settled (edit i) (accesses i) := by
    rw [hstart]
    exact id
  by_cases hnone : edit i (view v) = none
  · have hsettle := h.settle (.saw (view v)) hbefore hnone
      fun j seen _ hj hpending => by
        rw [effect_none hnone]
        exact h.current j seen hj hpending
    rw [effect_none hnone] at hsettle
    exact ⟨_, hsettle⟩
  · refine ⟨order, h.nodup, fun j => ?_, h.value, fun j seen hj hpending => ?_⟩
    · obtain rfl | hne := eq_or_ne j i
      · rw [Function.update_self, h.settled j]
        exact ⟨fun hsettled => (hbefore hsettled).elim, fun hsettled => (hnone hsettled).elim⟩
      · rw [Function.update_of_ne hne, h.settled j]
    · obtain rfl | hne := eq_or_ne j i
      · rw [Function.update_self] at hj
        cases hj
        rfl
      · rw [Function.update_of_ne hne] at hj
        exact h.current j seen hj hpending

theorem Serial.write (h : Serial view edit put v₀ accesses order v) {i : ι} {seen : R} {written : W}
    (hsaw : accesses i = .saw seen) (hedit : edit i seen = some written)
    (halone : ∀ j, j ≠ i → ¬Pending (edit j) (accesses j)) :
    Serial view edit put v₀ (Function.update accesses i .wrote) (order ++ [i]) (put written v) := by
  have hpending : edit i seen ≠ none := by
    rw [hedit]
    nofun
  have hview : edit i (view v) = some written := by rw [← h.current i seen hsaw hpending, hedit]
  have hbefore : ¬Settled (edit i) (accesses i) := by
    rw [hsaw]
    exact hpending
  have hsettle := h.settle .wrote hbefore trivial fun j seen' hne hj hpending' => by
    refine (halone j hne ?_).elim
    rw [hj]
    exact hpending'
  rwa [effect_some hview] at hsettle

omit [DecidableEq ι] in
theorem foldl_idle {rest : List ι} (hidle : ∀ i ∈ rest, ∀ seen, edit i seen = none) (v : V) :
    rest.foldl (effect view edit put) v = v := by
  induction rest with
  | nil => rfl
  | cons i rest ih =>
    rw [List.foldl_cons, effect_none (hidle i List.mem_cons_self _)]
    exact ih fun j hj => hidle j (List.mem_cons_of_mem i hj)

/-- When every operation has settled or never writes, the value is the result of a serial order of
all of them. -/
theorem Serial.complete [Fintype ι] (h : Serial view edit put v₀ accesses order v)
    (hall : ∀ i, Settled (edit i) (accesses i) ∨ ∀ seen, edit i seen = none) :
    ∃ order' : List ι, order'.Nodup ∧ (∀ i, i ∈ order') ∧
      v = order'.foldl (effect view edit put) v₀ := by
  let rest := Finset.univ.toList.filter (· ∉ order)
  have hrest (i : ι) : i ∈ rest ↔ i ∉ order := by simp [rest]
  refine ⟨order ++ rest, ?_, fun i => ?_, ?_⟩
  · refine List.nodup_append.mpr ⟨h.nodup, (Finset.nodup_toList _).filter _, ?_⟩
    rintro i hi j hj rfl
    exact (hrest i).mp hj hi
  · rw [List.mem_append, hrest]
    exact Classical.em _
  · rw [List.foldl_append, ← h.value, foldl_idle]
    intro i hi
    exact (hall i).resolve_left fun hsettled => (hrest i).mp hi ((h.settled i).mpr hsettled)

end Serial

end Crabscale.Interaction
