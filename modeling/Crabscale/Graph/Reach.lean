import Mathlib.Logic.Relation

/-!
# Searches that remember the path they are on

A depth-first search that refuses to enter a vertex twice on one path, but forgets the path when it
returns, visits exactly the reachable vertices. `ReachesAvoiding next closed a c` is what it finds
from `a` while its path is closed, and `reaches_avoiding_iff` unfolds it the way the search does.
-/

namespace Crabscale.Graph

variable {α : Type} {next : α → α → Prop} {closed : α → Prop} {a b c : α}

/-- There is a path from `a` to `c` on which no vertex is closed. -/
def ReachesAvoiding (next : α → α → Prop) (closed : α → Prop) (a c : α) : Prop :=
  ¬closed a ∧ Relation.ReflTransGen (fun x y => next x y ∧ ¬closed y) a c

theorem ReachesAvoiding.mono {closed' : α → Prop} (h : ReachesAvoiding next closed a c)
    (hclosed : ∀ x, closed' x → closed x) : ReachesAvoiding next closed' a c :=
  ⟨fun ha => h.1 (hclosed a ha),
    Relation.ReflTransGen.mono (fun _ y hxy => ⟨hxy.1, fun hy => hxy.2 (hclosed y hy)⟩) _ _ h.2⟩

/-- A path either never comes to `a`, or its rest after the last visit of `a` does not. -/
theorem ReachesAvoiding.cut (a : α) (h : ReachesAvoiding next closed b c) :
    ReachesAvoiding next (fun x => closed x ∨ x = a) b c ∨
      a = c ∨ ∃ d, next a d ∧ ReachesAvoiding next (fun x => closed x ∨ x = a) d c := by
  obtain ⟨hb, hpath⟩ := h
  induction hpath using Relation.ReflTransGen.head_induction_on with
  | refl =>
    by_cases hca : c = a
    · exact .inr (.inl hca.symm)
    · exact .inl ⟨fun h => h.elim hb hca, .refl⟩
  | @head x y hxy _ ih =>
    obtain ⟨hy, hrest⟩ | hcut := ih hxy.2
    · by_cases hxa : x = a
      · subst hxa
        exact .inr (.inr ⟨y, hxy.1, hy, hrest⟩)
      · exact .inl ⟨fun h => h.elim hb hxa, .head ⟨hxy.1, hy⟩ hrest⟩
    · exact .inr hcut

/-- What a search finds from `a`: `a` itself, and what it finds from a successor with `a` closed. -/
theorem reaches_avoiding_iff :
    ReachesAvoiding next closed a c ↔
      ¬closed a ∧ (a = c ∨ ∃ b, next a b ∧ ReachesAvoiding next
        (fun x => closed x ∨ x = a) b c) := by
  constructor
  · intro h
    refine ⟨h.1, ?_⟩
    obtain ⟨ha, -⟩ | hcut := h.cut a
    · exact absurd (.inr rfl) ha
    · exact hcut
  · rintro ⟨ha, rfl | ⟨b, hab, hb⟩⟩
    · exact ⟨ha, .refl⟩
    · have hb' := hb.mono fun x (hx : closed x) => .inl hx
      exact ⟨ha, .head ⟨hab, hb'.1⟩ hb'.2⟩

theorem reaches_avoiding_nothing (hclosed : ∀ x, ¬closed x) :
    ReachesAvoiding next closed a c ↔ Relation.ReflTransGen next a c := by
  simp [ReachesAvoiding, hclosed]

end Crabscale.Graph
