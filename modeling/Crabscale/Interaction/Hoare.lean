import Crabscale.Interaction.Program
import Mathlib.Logic.Function.Basic

/-!
# Preconditions, postconditions and guards of programs

`Triple h G P p Q E` says that a run of `p` from a state with `P` makes only calls that the guard
`G` allows where they are made, and ends with a value and a state with `Q` or with an error and a
state with `E`. There is one rule for each way to build a program. What no allowed call breaks is an
invariant of the whole run (`Triple.invariant`).
-/

namespace Crabscale.Interaction.Program

variable {S : Signature} {ε ε' α β σ : Type}

def Safe (h : Handler S σ) (G : σ → S.Call → Prop) : Program S ε α → σ → Prop
  | .done _, _ => True
  | .call c next, s => G s c ∧ (next (h c s).1).Safe h G (h c s).2

def After (Q : α → σ → Prop) (E : ε → σ → Prop) : Except ε α × σ → Prop
  | (.ok value, s) => Q value s
  | (.error error, s) => E error s

/-- From a state with `P` the program makes allowed calls only, and ends with `Q` or fails with
`E`. -/
def Triple (h : Handler S σ) (G : σ → S.Call → Prop) (P : σ → Prop) (p : Program S ε α)
    (Q : α → σ → Prop) (E : ε → σ → Prop) : Prop :=
  ∀ s, P s → p.Safe h G s ∧ After Q E (p.run h s)

/-! ## Guards -/

variable {p : Program S ε α} {s : σ}

section Guards

variable {h : Handler S σ} {G : σ → S.Call → Prop}

theorem safe_bind {f : α → Program S ε β} (hp : p.Safe h G s)
    (hf : ∀ value s', p.run h s = (.ok value, s') → (f value).Safe h G s') :
    (p >>= f).Safe h G s := by
  change (p.bind f).Safe h G s
  induction p generalizing s with
  | done result =>
    cases result with
    | ok value => exact hf value s rfl
    | error error => trivial
  | call c next ih => exact ⟨hp.1, ih _ hp.2 hf⟩

/-- The guard that allows everything. -/
def anyCall (_ : σ) (_ : S.Call) : Prop := True

theorem safe_any (p : Program S ε α) (s : σ) : p.Safe h anyCall s := by
  induction p generalizing s with
  | done result => trivial
  | call c next ih => exact ⟨trivial, ih _ _⟩

theorem Calls.safe {C : S.Call → Prop} (hp : p.Calls C)
    (hguard : ∀ c, C c → ∀ s, G s c) (s : σ) : p.Safe h G s := by
  induction p generalizing s with
  | done result => trivial
  | call c next ih => exact ⟨hguard c hp.1 s, ih _ (hp.2 _) _⟩

theorem Safe.invariant {I : σ → Prop}
    (hcall : ∀ s c, I s → G s c → I (h c s).2) (hp : p.Safe h G s) (hs : I s) :
    I (p.run h s).2 := by
  induction p generalizing s with
  | done result => exact hs
  | call c next ih => exact ih _ hp.2 (hcall s c hs hp.1)

theorem Safe.mono {G' : σ → S.Call → Prop} (hguard : ∀ s c, G s c → G' s c)
    (hp : p.Safe h G s) : p.Safe h G' s := by
  induction p generalizing s with
  | done result => trivial
  | call c next ih => exact ⟨hguard s c hp.1, ih _ hp.2⟩

theorem Safe.attempt (hp : p.Safe h G s) : (p.attempt : Program S ε' (Except ε α)).Safe h G s := by
  induction p generalizing s with
  | done result => trivial
  | call c next ih => exact ⟨hp.1, ih _ hp.2⟩

end Guards

/-! ## Rules -/

section Rules

variable {h : Handler S σ} {G : σ → S.Call → Prop} {P P' : σ → Prop} {Q Q' : α → σ → Prop}
  {E E' : ε → σ → Prop}

theorem triple_pure {value : α} (hpost : ∀ s, P s → Q value s) :
    Triple h G P (pure value : Program S ε α) Q E := fun s hs => ⟨trivial, hpost s hs⟩

theorem triple_throw {error : ε} (hpost : ∀ s, P s → E error s) :
    Triple h G P (throw error : Program S ε α) Q E := fun s hs => ⟨trivial, hpost s hs⟩

theorem triple_throw_bind {error : ε} {k : α → Program S ε β} {Q : β → σ → Prop}
    (hpost : ∀ s, P s → E error s) : Triple h G P (throw error >>= k) Q E :=
  fun s hs => ⟨trivial, hpost s hs⟩

/-- An end of which nothing more is said. -/
theorem triple_done {value : α} :
    Triple h G P (pure value : Program S ε α) (fun _ _ => True) E := triple_pure fun _ _ => trivial

theorem triple_failed {error : ε} :
    Triple h G P (throw error : Program S ε α) Q fun _ _ => True := triple_throw fun _ _ => trivial

theorem triple_failed_bind {error : ε} {k : α → Program S ε β} {Q : β → σ → Prop} :
    Triple h G P (throw error >>= k) Q fun _ _ => True := triple_throw_bind fun _ _ => trivial

theorem triple_perform {c : S.Call} {Q : S.Answer c → σ → Prop} (hguard : ∀ s, P s → G s c)
    (hpost : ∀ s, P s → Q (h c s).1 (h c s).2) : Triple h G P (perform c : Program S ε _) Q E :=
  fun s hs => ⟨⟨hguard s hs, trivial⟩, hpost s hs⟩

theorem Triple.bind {f : α → Program S ε β} {Q : β → σ → Prop}
    {M : α → σ → Prop} (hp : Triple h G P p M E)
    (hf : ∀ value, Triple h G (M value) (f value) Q E) : Triple h G P (p >>= f) Q E := by
  intro s hs
  obtain ⟨hsafe, hmid⟩ := hp s hs
  refine ⟨safe_bind hsafe fun value s' hrun => (hf value s' ?_).1, ?_⟩
  · rw [hrun] at hmid
    exact hmid
  · rw [run_bind]
    generalize p.run h s = result at hmid
    obtain ⟨value | value, s'⟩ := result
    · exact hmid
    · exact (hf value s' hmid).2

theorem Triple.weaken (hp : Triple h G P p Q E) (hpre : ∀ s, P' s → P s)
    (hpost : ∀ value s, Q value s → Q' value s) (herror : ∀ error s, E error s → E' error s) :
    Triple h G P' p Q' E' := by
  intro s hs
  obtain ⟨hsafe, hend⟩ := hp s (hpre s hs)
  refine ⟨hsafe, ?_⟩
  generalize p.run h s = result at hend ⊢
  obtain ⟨value | value, s'⟩ := result
  · exact herror value s' hend
  · exact hpost value s' hend

theorem Triple.pre (hp : Triple h G P p Q E) (hpre : ∀ s, P' s → P s) : Triple h G P' p Q E :=
  hp.weaken hpre (fun _ _ h => h) fun _ _ h => h

theorem Triple.guard {G' : σ → S.Call → Prop} (hp : Triple h G P p Q E)
    (hguard : ∀ s c, G s c → G' s c) : Triple h G' P p Q E := by
  intro s hs
  obtain ⟨hsafe, hend⟩ := hp s hs
  exact ⟨hsafe.mono hguard, hend⟩

theorem Triple.run_state (hp : Triple h G P p Q E) {s₀ : σ} (hs : P s₀) :
    Triple h G (· = s₀) p (fun value s => Q value s ∧ s = (p.run h s₀).2) E := by
  rintro s rfl
  obtain ⟨hsafe, hend⟩ := hp s hs
  refine ⟨hsafe, ?_⟩
  generalize p.run h s = result at hend ⊢
  obtain ⟨value | value, s'⟩ := result
  · exact hend
  · exact ⟨hend, rfl⟩

theorem Triple.assume {φ : Prop} (hφ : ∀ s, P s → φ)
    (hp : φ → Triple h G P p Q E) : Triple h G P p Q E :=
  fun s hs => hp (hφ s hs) s hs

theorem triple_exists {ι : Sort*} {P : ι → σ → Prop}
    (hp : ∀ i, Triple h G (P i) p Q E) : Triple h G (fun s => ∃ i, P i s) p Q E := by
  rintro s ⟨i, hs⟩
  exact hp i s hs

theorem triple_bind_run {k : α → Program S ε β} {Q : β → σ → Prop}
    {s₀ s₁ : σ} {value : α} (hsafe : p.Safe h G s₀) (hp : p.run h s₀ = (.ok value, s₁))
    (hk : Triple h G (· = s₁) (k value) Q E) : Triple h G (· = s₀) (p >>= k) Q E := by
  rintro s rfl
  refine ⟨safe_bind hsafe fun value' s' hrun => ?_, ?_⟩
  · cases hp.symm.trans hrun
    exact (hk s₁ rfl).1
  · rw [run_bind_ok h hp]
    exact (hk s₁ rfl).2

theorem triple_bind_run_error {k : α → Program S ε β} {Q : β → σ → Prop}
    {s₀ s₁ : σ} {error : ε} (hsafe : p.Safe h G s₀) (hp : p.run h s₀ = (.error error, s₁))
    (hpost : E error s₁) : Triple h G (· = s₀) (p >>= k) Q E := by
  rintro s rfl
  refine ⟨safe_bind hsafe fun value' s' hrun => ?_, ?_⟩
  · cases hp.symm.trans hrun
  · rw [run_bind_error h hp]
    exact hpost

theorem Reads.triple {f : σ → α} (hp : Reads h p f)
    (hsafe : ∀ s, p.Safe h G s) (hpost : ∀ s, P s → Q (f s) s) : Triple h G P p Q E := by
  intro s hs
  rw [hp s]
  exact ⟨hsafe s, hpost s hs⟩

theorem Calls.triple {C : S.Call → Prop} (hp : p.Calls C)
    (hguard : ∀ c, C c → ∀ s, P s → G s c) (hcall : ∀ c, C c → ∀ s, P s → P (h c s).2) :
    Triple h G P p (fun _ => P) (fun _ => P) := by
  intro s hs
  induction p generalizing s with
  | done result => exact ⟨trivial, by cases result <;> exact hs⟩
  | call c next ih =>
    obtain ⟨hsafe, hend⟩ := ih _ (hp.2 _) _ (hcall c hp.1 s hs)
    exact ⟨⟨hguard c hp.1 s hs, hsafe⟩, hend⟩

theorem Triple.attempt (hp : Triple h G P p Q E) {E' : ε' → σ → Prop} :
    Triple h G P (p.attempt : Program S ε' (Except ε α)) (fun result s => After Q E (result, s))
      E' := by
  intro s hs
  rw [run_attempt]
  exact ⟨(hp s hs).1.attempt, (hp s hs).2⟩

theorem Triple.forM {items : List β} {f : β → Program S ε PUnit}
    (hf : ∀ item ∈ items, Triple h G P (f item) (fun _ => P) E) :
    Triple h G P (items.forM f) (fun _ => P) E := by
  induction items with
  | nil => exact triple_pure fun _ hs => hs
  | cons item items ih =>
    exact (hf item List.mem_cons_self).bind fun _ =>
      ih fun item hitem => hf item (List.mem_cons_of_mem _ hitem)

theorem Throws.triple {F : ε → Prop} (hp : p.Throws F) (hsafe : ∀ s, p.Safe h G s) :
    Triple h G P p (fun _ _ => True) (fun error _ => F error) := by
  intro s _
  refine ⟨hsafe s, ?_⟩
  cases hrun : p.run h s with
  | mk answer s' =>
    cases answer with
    | ok value => trivial
    | error error => exact hp.run hrun

theorem Triple.ok (hp : Triple h G P p Q E) {s' : σ} {value : α} (hs : P s)
    (hrun : p.run h s = (.ok value, s')) : Q value s' := by
  have hend := (hp s hs).2
  rw [hrun] at hend
  exact hend

theorem Triple.error (hp : Triple h G P p Q E) {s' : σ} {error : ε} (hs : P s)
    (hrun : p.run h s = (.error error, s')) : E error s' := by
  have hend := (hp s hs).2
  rw [hrun] at hend
  exact hend

theorem Triple.either {R : σ → Prop}
    (hp : Triple h G P p (fun _ => R) (fun _ => R)) (hs : P s) : R (p.run h s).2 := by
  have hend := (hp s hs).2
  generalize p.run h s = result at hend ⊢
  obtain ⟨value | value, s'⟩ := result <;> exact hend

theorem Triple.total (hp : Triple h G P p Q (fun _ _ => False))
    (hs : P s) : ∃ value s', p.run h s = (.ok value, s') ∧ Q value s' := by
  have hend := (hp s hs).2
  generalize p.run h s = result at hend ⊢
  obtain ⟨value | value, s'⟩ := result
  · exact hend.elim
  · exact ⟨value, s', rfl, hend⟩

theorem Triple.invariant (hp : Triple h G P p Q E) {I : σ → Prop}
    (hcall : ∀ s c, I s → G s c → I (h c s).2) (hs : P s) (hi : I s) : I (p.run h s).2 :=
  (hp s hs).1.invariant hcall hi

theorem triple_any {I : σ → Prop} (hcall : ∀ s c, I s → I (h c s).2) (p : Program S ε α) :
    Triple h anyCall I p (fun _ => I) (fun _ => I) := by
  intro s hs
  have hinv := (safe_any p s).invariant (fun s c hs _ => hcall s c hs) hs
  refine ⟨safe_any p s, ?_⟩
  generalize p.run h s = result at hinv ⊢
  obtain ⟨value | value, s'⟩ := result <;> exact hinv

theorem Triple.frame (hp : Triple h G P p Q E) {I : σ → Prop}
    (hcall : ∀ s c, I s → G s c → I (h c s).2) :
    Triple h G (fun s => P s ∧ I s) p (fun value s => Q value s ∧ I s)
      (fun error s => E error s ∧ I s) := by
  rintro s ⟨hs, hi⟩
  obtain ⟨hsafe, hend⟩ := hp s hs
  have hinv := hsafe.invariant hcall hi
  refine ⟨hsafe, ?_⟩
  generalize p.run h s = result at hend hinv ⊢
  obtain ⟨value | value, s'⟩ := result <;> exact ⟨hend, hinv⟩

end Rules

end Crabscale.Interaction.Program

/-! ## Runs with a note

A `Noted` run carries a note along that the actions do not read: it remembers what a property of the
whole run is about. -/

namespace Crabscale.Interaction

variable {σ Act γ : Type} {next : σ → Act → σ} {note : σ → Act → γ → γ} {C : σ → γ → Act → Prop}

inductive Noted (next : σ → Act → σ) (note : σ → Act → γ → γ) (C : σ → γ → Act → Prop) (start : σ)
    (blank : γ) : σ → γ → Prop where
  | refl : Noted next note C start blank start blank
  | step {s : σ} {n : γ} {act : Act} : Noted next note C start blank s n → C s n act →
      Noted next note C start blank (next s act) (note s act n)

theorem Noted.invariant {I : σ → γ → Prop}
    (hstep : ∀ s n act, I s n → C s n act → I (next s act) (note s act n)) {start s : σ}
    {blank n : γ} (hrun : Noted next note C start blank s n) (hstart : I start blank) : I s n := by
  induction hrun with
  | refl => exact hstart
  | step _ hmeets ih => exact hstep _ _ _ ih hmeets

end Crabscale.Interaction
