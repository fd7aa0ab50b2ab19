import Crabscale.Interaction.Program
import Mathlib.Logic.Function.Basic

/-!
# Protocols and pools of programs

A `Protocol` is in a phase, allows some calls in that phase, and the answer to a call decides the
next phase. `Obeys`: a program makes only allowed calls, whatever the expected answers are.

A `Pool` is a family of programs on one shared state. In a step one of them makes its next call, and
a schedule is an arbitrary interleaving. An invariant that every call keeps which the caller's
protocol allows in its phase holds after every schedule (`Pool.run_invariant`).
-/

namespace Crabscale.Interaction

/-- The phases that a program goes through, as its calls and their answers show them. -/
structure Protocol (S : Signature) (Φ : Type) where
  /-- The calls that may be made in a phase. -/
  allowed : Φ → S.Call → Prop
  /-- The answers that the program may count on. -/
  expects : Φ → (c : S.Call) → S.Answer c → Prop
  /-- The phase after a call. -/
  next : Φ → (c : S.Call) → S.Answer c → Φ

def Protocol.Keeps {S : Signature} {Φ : Type} (π : Protocol S Φ) (φ : Φ) (c : S.Call) : Prop :=
  π.allowed φ c ∧ ∀ answer, π.next φ c answer = φ

namespace Program

variable {S : Signature} {ε ε' α β σ Φ : Type}

/-- From a phase the program makes allowed calls only, and ends with a value and a phase with `Q` or
with an error and a phase with `E`. -/
def Obeys (π : Protocol S Φ) : Program S ε α → Φ → (α → Φ → Prop) → (ε → Φ → Prop) → Prop
  | .done (.ok value), φ, Q, _ => Q value φ
  | .done (.error error), φ, _, E => E error φ
  | .call c next, φ, Q, E =>
    π.allowed φ c ∧ ∀ answer, π.expects φ c answer →
      (next answer).Obeys π (π.next φ c answer) Q E

variable {π : Protocol S Φ} {φ : Φ} {Q Q' : α → Φ → Prop} {E E' : ε → Φ → Prop}

/-! ## Rules -/

variable {p : Program S ε α}

theorem Obeys.bind {f : α → Program S ε β} {Q : β → Φ → Prop}
    {M : α → Φ → Prop} (hp : p.Obeys π φ M E)
    (hf : ∀ value φ', M value φ' → (f value).Obeys π φ' Q E) : (p >>= f).Obeys π φ Q E := by
  change (p.bind f).Obeys π φ Q E
  induction p generalizing φ with
  | done result =>
    cases result with
    | ok value => exact hf value φ hp
    | error error => exact hp
  | call c next ih => exact ⟨hp.1, fun answer hanswer => ih answer (hp.2 answer hanswer)⟩

theorem Obeys.weaken (hp : p.Obeys π φ Q E)
    (hpost : ∀ value φ', Q value φ' → Q' value φ') (herror : ∀ error φ', E error φ' → E' error φ') :
    p.Obeys π φ Q' E' := by
  induction p generalizing φ with
  | done result =>
    cases result with
    | ok value => exact hpost value φ hp
    | error error => exact herror error φ hp
  | call c next ih => exact ⟨hp.1, fun answer hanswer => ih answer (hp.2 answer hanswer)⟩

theorem Obeys.attempt (hp : p.Obeys π φ Q E) {E' : ε' → Φ → Prop} :
    (p.attempt : Program S ε' (Except ε α)).Obeys π φ
      (fun result φ' => match result with
        | .ok value => Q value φ'
        | .error error => E error φ') E' := by
  induction p generalizing φ with
  | done result => cases result <;> exact hp
  | call c next ih => exact ⟨hp.1, fun answer hanswer => ih answer (hp.2 answer hanswer)⟩

theorem Calls.obeys (hp : p.Calls (π.Keeps φ)) :
    p.Obeys π φ (fun _ φ' => φ' = φ) (fun _ φ' => φ' = φ) := by
  induction p with
  | done result => cases result <;> exact (rfl : φ = φ)
  | call c next ih =>
    refine ⟨hp.1.1, fun answer _ => ?_⟩
    rw [hp.1.2 answer]
    exact ih answer (hp.2 answer)

theorem Calls.obeys_bind {f : α → Program S ε β} {Q : β → Φ → Prop}
    (hp : p.Calls (π.Keeps φ)) (herror : ∀ error, E error φ)
    (hf : ∀ value, (f value).Obeys π φ Q E) : (p >>= f).Obeys π φ Q E := by
  refine (hp.obeys.weaken (fun _ _ h => h) ?_).bind ?_
  · rintro error _ rfl
    exact herror error
  · rintro value _ rfl
    exact hf value

/-- A program that only reads, and counts on the answers of one state, obeys and ends as it does
when it runs in that state. -/
theorem Calls.obeys_run {h : Handler S σ} {s : σ}
    (hp : p.Calls fun c => π.Keeps φ c ∧ (∀ answer, π.expects φ c answer → answer = (h c s).1) ∧
      (h c s).2 = s) :
    p.Obeys π φ (fun value φ' => φ' = φ ∧ p.run h s = (.ok value, s))
      (fun error φ' => φ' = φ ∧ p.run h s = (.error error, s)) := by
  induction p with
  | done result => cases result <;> exact ⟨rfl, rfl⟩
  | call c next ih =>
    obtain ⟨⟨hkeeps, hanswers, hstate⟩, hnext⟩ := hp
    refine ⟨hkeeps.1, fun answer hanswer => ?_⟩
    rw [hkeeps.2 answer, run_call, hstate, ← hanswers answer hanswer]
    exact ih answer (hnext answer)

/-! ## Runs -/

def Ends (Q : α → Φ → Prop) (E : ε → Φ → Prop) (φ : Φ) : Except ε α → Prop
  | .ok value => Q value φ
  | .error error => E error φ

/-- An invariant of phases and states that allowed calls keep, at the end of a run with nothing in
between. -/
theorem Obeys.run {h : Handler S σ} {I : Φ → σ → Prop} (hcall : ∀ φ s c, I φ s → π.allowed φ c →
      π.expects φ c (h c s).1 ∧ I (π.next φ c (h c s).1) (h c s).2)
    (hp : p.Obeys π φ Q E) {s : σ} (hs : I φ s) :
    ∃ φ', I φ' (p.run h s).2 ∧ Ends Q E φ' (p.run h s).1 := by
  induction p generalizing φ s with
  | done result => cases result <;> exact ⟨φ, hs, hp⟩
  | call c next ih =>
    obtain ⟨hexpects, hnext⟩ := hcall φ s c hs hp.1
    exact ih _ (hp.2 _ hexpects) hnext

end Program

/-! # Pools -/

/-- Programs on a shared state, each with the phase of its protocol. -/
structure Pool (S : Signature) (ε α Φ ι σ : Type) where
  threads : ι → Program S ε α
  phases : ι → Φ
  state : σ

namespace Pool

variable {S : Signature} {ε α Φ ι σ : Type}

/-! ## Threads and their protocols -/

def ended (pool : Pool S ε α Φ ι σ) (i : ι) : Bool :=
  match pool.threads i with
  | .done _ => true
  | .call _ _ => false

/-- Whether a thread has ended with a value. -/
def returned (pool : Pool S ε α Φ ι σ) (i : ι) : Bool :=
  match pool.threads i with
  | .done (.ok _) => true
  | .done (.error _) | .call _ _ => false

/-- Every thread obeys its protocol from its phase on, and ends in a phase of `E`. -/
def Obeys (π : ι → Protocol S Φ) (E : ι → Φ → Prop) (pool : Pool S ε α Φ ι σ) : Prop :=
  ∀ i, (pool.threads i).Obeys (π i) (pool.phases i) (fun _ => E i) (fun _ => E i)

section Obeys

variable {π : ι → Protocol S Φ} {E : ι → Φ → Prop} {pool : Pool S ε α Φ ι σ} {i : ι}

theorem Obeys.ended (hpool : pool.Obeys π E) (hend : pool.ended i = true) :
    E i (pool.phases i) := by
  have hi := hpool i
  unfold Pool.ended at hend
  cases hthread : pool.threads i with
  | done result =>
    rw [hthread] at hi
    cases result <;> exact hi
  | call c next =>
    rw [hthread] at hend
    cases hend

variable {c : S.Call} {next : S.Answer c → Program S ε α}

theorem Obeys.allowed (hpool : pool.Obeys π E) (hcall : pool.threads i = .call c next) :
    (π i).allowed (pool.phases i) c := by
  have hi := hpool i
  rw [hcall] at hi
  exact hi.1

theorem ended_of_call (hcall : pool.threads i = .call c next) : pool.ended i = false := by
  simp only [Pool.ended, hcall]

end Obeys

/-- What holds of at most one thread still does when only one thread changes, and that one excludes
the others. -/
theorem unique_advance {i : ι} {P P' : ι → Prop} (hunique : ∀ j k, P j → P k → j = k)
    (hother : ∀ j, j ≠ i → P' j → P j) (hself : P' i → ∀ j, j ≠ i → ¬P j) (j k : ι) (hj : P' j)
    (hk : P' k) : j = k := by
  obtain rfl | hne := eq_or_ne j i
  · by_contra hdiffer
    exact hself hj k (Ne.symm hdiffer) (hother k (Ne.symm hdiffer) hk)
  obtain rfl | hne' := eq_or_ne k i
  · exact (hself hk j hne (hother j hne hj)).elim
  · exact hunique j k (hother j hne hj) (hother k hne' hk)

/-! ## Steps and schedules -/

variable [DecidableEq ι]

def advance (h : Handler S σ) (π : ι → Protocol S Φ) (pool : Pool S ε α Φ ι σ) (i : ι) (c : S.Call)
    (next : S.Answer c → Program S ε α) : Pool S ε α Φ ι σ where
  threads := Function.update pool.threads i (next (h c pool.state).1)
  phases := Function.update pool.phases i ((π i).next (pool.phases i) c (h c pool.state).1)
  state := (h c pool.state).2

section Advance

variable {h : Handler S σ} {π : ι → Protocol S Φ} {pool : Pool S ε α Φ ι σ} {i j : ι} {c : S.Call}
  {next : S.Answer c → Program S ε α}

theorem phases_advance_self : (pool.advance h π i c next).phases i =
    (π i).next (pool.phases i) c (h c pool.state).1 :=
  Function.update_self ..

theorem phases_advance_of_ne (hne : j ≠ i) : (pool.advance h π i c next).phases j = pool.phases j :=
  Function.update_of_ne hne ..

theorem ended_advance_of_ne (hne : j ≠ i) : (pool.advance h π i c next).ended j = pool.ended j := by
  simp only [ended, advance, Function.update_of_ne hne]

end Advance

def step (h : Handler S σ) (π : ι → Protocol S Φ) (pool : Pool S ε α Φ ι σ) (i : ι) :
    Pool S ε α Φ ι σ :=
  match pool.threads i with
  | .done _ => pool
  | .call c next => pool.advance h π i c next

def run (h : Handler S σ) (π : ι → Protocol S Φ) (pool : Pool S ε α Φ ι σ) (schedule : List ι) :
    Pool S ε α Φ ι σ :=
  schedule.foldl (step h π) pool

def NextMeets (C : Pool S ε α Φ ι σ → ι → S.Call → Prop) (pool : Pool S ε α Φ ι σ) (i : ι) : Prop :=
  match pool.threads i with
  | .done _ => True
  | .call c _ => C pool i c

def Meets (h : Handler S σ) (π : ι → Protocol S Φ) (C : Pool S ε α Φ ι σ → ι → S.Call → Prop) :
    Pool S ε α Φ ι σ → List ι → Prop
  | _, [] => True
  | pool, i :: schedule => pool.NextMeets C i ∧ (pool.step h π i).Meets h π C schedule

instance (C : Pool S ε α Φ ι σ → ι → S.Call → Prop) [∀ pool i c, Decidable (C pool i c)]
    (pool : Pool S ε α Φ ι σ) (i : ι) : Decidable (pool.NextMeets C i) :=
  match hthread : pool.threads i with
  | .done _ => isTrue (by simp only [NextMeets, hthread])
  | .call c _ => decidable_of_iff (C pool i c) (by simp only [NextMeets, hthread])

instance instDecidableMeets (h : Handler S σ) (π : ι → Protocol S Φ)
    (C : Pool S ε α Φ ι σ → ι → S.Call → Prop) [∀ pool i c, Decidable (C pool i c)] :
    (pool : Pool S ε α Φ ι σ) → (schedule : List ι) → Decidable (pool.Meets h π C schedule)
  | _, [] => isTrue trivial
  | pool, i :: schedule =>
    have := instDecidableMeets h π C (pool.step h π i) schedule
    inferInstanceAs (Decidable (_ ∧ _))

variable {h : Handler S σ} {π : ι → Protocol S Φ} {E : ι → Φ → Prop}
  {C : Pool S ε α Φ ι σ → ι → S.Call → Prop} {pool : Pool S ε α Φ ι σ}

theorem meets_any (pool : Pool S ε α Φ ι σ) (schedule : List ι) :
    pool.Meets h π (fun _ _ _ => True) schedule := by
  induction schedule generalizing pool with
  | nil => trivial
  | cons i schedule ih =>
    refine ⟨?_, ih _⟩
    unfold NextMeets
    cases pool.threads i <;> trivial

theorem Obeys.advance (hpool : pool.Obeys π E) {i : ι} {c : S.Call}
    {next : S.Answer c → Program S ε α} (hcall : pool.threads i = .call c next)
    (hexpects : (π i).expects (pool.phases i) c (h c pool.state).1) :
    (pool.advance h π i c next).Obeys π E := by
  intro j
  obtain rfl | hne := eq_or_ne j i
  · have hj := hpool j
    rw [hcall] at hj
    simp only [Pool.advance, Function.update_self]
    exact hj.2 _ hexpects
  · simp only [Pool.advance, Function.update_of_ne hne]
    exact hpool j

/-- What every call keeps that a protocol allows and that meets the condition holds after every
schedule. -/
theorem run_invariant {I : Pool S ε α Φ ι σ → Prop}
    (hstep : ∀ pool : Pool S ε α Φ ι σ, pool.Obeys π E → I pool → ∀ i c next,
      pool.threads i = .call c next → C pool i c →
        (π i).expects (pool.phases i) c (h c pool.state).1 ∧ I (pool.advance h π i c next))
    (hpool : pool.Obeys π E) (hI : I pool) {schedule : List ι}
    (hmeets : pool.Meets h π C schedule) :
    (pool.run h π schedule).Obeys π E ∧ I (pool.run h π schedule) := by
  induction schedule generalizing pool with
  | nil => exact ⟨hpool, hI⟩
  | cons i schedule ih =>
    obtain ⟨hnext, hrest⟩ := hmeets
    change ((pool.step h π i).run h π schedule).Obeys π E ∧ I ((pool.step h π i).run h π schedule)
    unfold Pool.NextMeets at hnext
    cases hthread : pool.threads i with
    | done result =>
      have hsame : pool.step h π i = pool := by simp only [Pool.step, hthread]
      rw [hsame] at hrest ⊢
      exact ih hpool hI hrest
    | call c next =>
      have hadvance : pool.step h π i = pool.advance h π i c next := by
        simp only [Pool.step, hthread]
      rw [hthread] at hnext
      rw [hadvance] at hrest ⊢
      obtain ⟨hexpects, hI'⟩ := hstep pool hpool hI i c next hthread hnext
      exact ih (hpool.advance hthread hexpects) hI' hrest

end Pool

end Crabscale.Interaction
