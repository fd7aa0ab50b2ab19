import Crabscale.Interaction.Hoare

/-!
# Runs among the calls of others

`Meanwhile` is what other programs do to the shared state. `Amid` is a run of one program in which
others make calls before each of its own. `Among h C P p Q E` is the triple for such runs: what
holds before a call has to be kept by the others (`KeptByOthers`), and a program that only looks at
what the others leave alone ends as it does alone (`Calls.amid`).
-/

namespace Crabscale.Interaction.Program

variable {S : Signature} {ε α β σ : Type} {h : Handler S σ} {C : σ → S.Call → Prop}

inductive Meanwhile (h : Handler S σ) (C : σ → S.Call → Prop) (s : σ) : σ → Prop where
  | refl : Meanwhile h C s s
  | call {s' : σ} {c : S.Call} : Meanwhile h C s s' → C s' c → Meanwhile h C s (h c s').2

theorem Meanwhile.invariant {I : σ → Prop} (hcall : ∀ s c, I s → C s c → I (h c s).2) {s s' : σ}
    (hrun : Meanwhile h C s s') (hs : I s) : I s' := by
  induction hrun with
  | refl => exact hs
  | call _ hallowed ih => exact hcall _ _ ih hallowed

inductive Amid (h : Handler S σ) (C : σ → S.Call → Prop) :
    Program S ε α → σ → Except ε α → σ → Prop where
  | done {result : Except ε α} {s : σ} : Amid h C (.done result) s result s
  | call {c : S.Call} {next : S.Answer c → Program S ε α} {s s' s'' : σ} {result : Except ε α} :
      Meanwhile h C s s' → Amid h C (next (h c s').1) (h c s').2 result s'' →
      Amid h C (.call c next) s result s''

theorem amid_run (p : Program S ε α) (s : σ) : Amid h C p s (p.run h s).1 (p.run h s).2 := by
  induction p generalizing s with
  | done result => exact .done
  | call c next ih => exact .call .refl (ih _ _)

variable {p : Program S ε α}

theorem Amid.of_bind {f : α → Program S ε β} {s s'' : σ} {result : Except ε β}
    (hrun : Amid h C (p >>= f) s result s'') :
    (∃ error, result = .error error ∧ Amid h C p s (.error error) s'') ∨
      ∃ value s', Amid h C p s (.ok value) s' ∧ Amid h C (f value) s' result s'' := by
  change Amid h C (p.bind f) s result s'' at hrun
  induction p generalizing s with
  | done first =>
    cases first with
    | ok value => exact .inr ⟨value, s, .done, hrun⟩
    | error error =>
      cases hrun
      exact .inl ⟨error, rfl, .done⟩
  | call c next ih =>
    cases hrun with
    | call hothers hrest =>
      obtain ⟨error, hresult, hfirst⟩ | ⟨value, s', hfirst, hsecond⟩ := ih _ hrest
      · exact .inl ⟨error, hresult, .call hothers hfirst⟩
      · exact .inr ⟨value, s', .call hothers hfirst, hsecond⟩

/-! ## Preconditions and postconditions among the calls of others -/

def KeptByOthers (h : Handler S σ) (C : σ → S.Call → Prop) (P : σ → Prop) : Prop :=
  ∀ s c, P s → C s c → P (h c s).2

/-- Among the calls of others, from a state with `P` the program ends with `Q` or fails with `E`. -/
def Among (h : Handler S σ) (C : σ → S.Call → Prop) (P : σ → Prop) (p : Program S ε α)
    (Q : α → σ → Prop) (E : ε → σ → Prop) : Prop :=
  ∀ s result s', P s → Amid h C p s result s' → After Q E (result, s')

section Rules

variable {P P' : σ → Prop} {Q Q' : α → σ → Prop} {E E' : ε → σ → Prop}

theorem among_pure {value : α} (hpost : ∀ s, P s → Q value s) :
    Among h C P (pure value : Program S ε α) Q E := by
  intro s result s' hs hrun
  cases hrun
  exact hpost s hs

theorem among_throw {error : ε} (hpost : ∀ s, P s → E error s) :
    Among h C P (throw error : Program S ε α) Q E := by
  intro s result s' hs hrun
  cases hrun
  exact hpost s hs

theorem among_throw_bind {error : ε} {k : α → Program S ε β} {Q : β → σ → Prop}
    (hpost : ∀ s, P s → E error s) : Among h C P (throw error >>= k) Q E := by
  intro s result s' hs hrun
  cases hrun
  exact hpost s hs

theorem among_call {c : S.Call} {next : S.Answer c → Program S ε α} {M : S.Answer c → σ → Prop}
    (hkept : KeptByOthers h C P) (hpost : ∀ s, P s → M (h c s).1 (h c s).2)
    (hnext : ∀ answer, Among h C (M answer) (next answer) Q E) :
    Among h C P (.call c next) Q E := by
  intro s result s' hs hrun
  cases hrun with
  | call hothers hrest =>
    exact hnext _ _ _ _ (hpost _ (hothers.invariant hkept hs)) hrest

theorem Among.bind {f : α → Program S ε β} {Q : β → σ → Prop}
    {M : α → σ → Prop} (hp : Among h C P p M E)
    (hf : ∀ value, Among h C (M value) (f value) Q E) : Among h C P (p >>= f) Q E := by
  intro s result s' hs hrun
  obtain ⟨error, rfl, hfirst⟩ | ⟨value, middle, hfirst, hsecond⟩ := hrun.of_bind
  · exact hp s _ s' hs hfirst
  · exact hf value middle result s' (hp s _ middle hs hfirst) hsecond

theorem Among.weaken (hp : Among h C P p Q E) (hpre : ∀ s, P' s → P s)
    (hpost : ∀ value s, Q value s → Q' value s) (herror : ∀ error s, E error s → E' error s) :
    Among h C P' p Q' E' := by
  intro s result s' hs hrun
  have hend := hp s result s' (hpre s hs) hrun
  cases result with
  | ok value => exact hpost value s' hend
  | error error => exact herror error s' hend

theorem Among.pre (hp : Among h C P p Q E) (hpre : ∀ s, P' s → P s) : Among h C P' p Q E :=
  hp.weaken hpre (fun _ _ hq => hq) fun _ _ he => he

theorem Among.assume {φ : Prop} (hφ : ∀ s, P s → φ)
    (hp : φ → Among h C P p Q E) : Among h C P p Q E :=
  fun s result s' hs hrun => hp (hφ s hs) s result s' hs hrun

theorem Calls.among {D : S.Call → Prop} (hp : p.Calls D)
    (hkept : KeptByOthers h C P) (hcall : ∀ c, D c → ∀ s, P s → P (h c s).2) :
    Among h C P p (fun _ => P) (fun _ => P) := by
  intro s result s' hs hrun
  induction p generalizing s with
  | done first =>
    cases hrun
    cases result <;> exact hs
  | call c next ih =>
    cases hrun with
    | call hothers hrest =>
      exact ih _ (hp.2 _) _ (hcall c hp.1 _ (hothers.invariant hkept hs)) hrest

end Rules

/-- A program that only looks at a part of the state, which its calls and those of others leave,
ends as it does alone. -/
theorem Calls.amid {γ : Type} {D : S.Call → Prop} (hp : p.Calls D) (view : σ → γ)
    (hcall : ∀ c, D c → ∀ s s', view s = view s' →
      (h c s).1 = (h c s').1 ∧ view (h c s).2 = view s)
    (hothers : ∀ s c, C s c → view (h c s).2 = view s) {s₀ s s' : σ} {result : Except ε α}
    (hview : view s = view s₀) (hrun : Amid h C p s result s') :
    result = (p.run h s₀).1 ∧ view s' = view s₀ := by
  induction p generalizing s s₀ with
  | done first =>
    cases hrun
    exact ⟨rfl, hview⟩
  | call c next ih =>
    cases hrun with
    | @call _ _ _ s₁ _ _ hmeanwhile hrest =>
      have hview₁ : view s₁ = view s₀ := hmeanwhile.invariant (I := fun s => view s = view s₀)
        (fun s c hs hc => (hothers s c hc).trans hs) hview
      obtain ⟨hanswer, hleft⟩ := hcall c hp.1 s₁ s₀ hview₁
      have hleft₀ := (hcall c hp.1 s₀ s₀ rfl).2
      obtain ⟨hresult, hend⟩ := ih _ (hp.2 _) ((hleft.trans hview₁).trans hleft₀.symm) hrest
      rw [run_call, ← hanswer]
      exact ⟨hresult, hend.trans hleft₀⟩

end Crabscale.Interaction.Program
