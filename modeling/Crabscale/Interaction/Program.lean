import Mathlib.Logic.Relation

/-!
# Programs over a signature of atomic calls

A `Program` is a finite tree of calls into shared state, each followed by a continuation that
receives the answer. A `Handler` gives the calls a meaning, and `Program.run` executes a program
with nothing in between; the same tree can be interleaved call by call with others
(`Crabscale.Interaction.Pool`). `run_bind` peels a program apart, and `Calls.run_rel` carries a
preorder on states across every call that it can make.
-/

namespace Crabscale.Interaction

/-- The calls a program can make, with the type of the answer to each. -/
structure Signature where
  Call : Type
  Answer : Call → Type

/-- A program over the signature `S` that ends with a value of `α` or an error of `ε`. -/
inductive Program (S : Signature) (ε α : Type) where
  | done (result : Except ε α)
  | call (c : S.Call) (next : S.Answer c → Program S ε α)

/-- The meaning of the calls of `S` on states of `σ`: an answer and the state left behind. -/
def Handler (S : Signature) (σ : Type) : Type :=
  (c : S.Call) → σ → S.Answer c × σ

namespace Program

variable {S : Signature} {ε ε' α β σ : Type}

def bind : Program S ε α → (α → Program S ε β) → Program S ε β
  | .done (.ok value), f => f value
  | .done (.error error), _ => .done (.error error)
  | .call c next, f => .call c fun answer => (next answer).bind f

instance : Monad (Program S ε) where
  pure value := .done (.ok value)
  bind := bind

theorem bind_done_ok (p : Program S ε α) : p.bind (fun value => .done (.ok value)) = p := by
  induction p with
  | done result => cases result <;> rfl
  | call c next ih => simp only [bind, ih]

theorem bind_bind {γ : Type} (p : Program S ε α) (f : α → Program S ε β)
    (g : β → Program S ε γ) : (p.bind f).bind g = p.bind fun value => (f value).bind g := by
  induction p with
  | done result => cases result <;> rfl
  | call c next ih => simp only [bind, ih]

instance : LawfulMonad (Program S ε) :=
  LawfulMonad.mk' _ bind_done_ok (fun _ _ => rfl) bind_bind

instance : MonadExcept ε (Program S ε) where
  throw error := .done (.error error)
  tryCatch program handler :=
    let rec go : Program S ε _ → Program S ε _
      | .done (.ok value) => .done (.ok value)
      | .done (.error error) => handler error
      | .call c next => .call c fun answer => go (next answer)
    go program

def perform (c : S.Call) : Program S ε (S.Answer c) :=
  .call c fun answer => .done (.ok answer)

/-- Run a program whose error becomes a value, as a closure returning a `Result` does. -/
def attempt : Program S ε α → Program S ε' (Except ε α)
  | .done result => .done (.ok result)
  | .call c next => .call c fun answer => (next answer).attempt

def run (h : Handler S σ) : Program S ε α → σ → Except ε α × σ
  | .done result, s => (result, s)
  | .call c next, s => (next (h c s).1).run h (h c s).2

/-! ## Execution of each program form -/

variable {p : Program S ε α} {f : α → Program S ε β}

section Run

variable (h : Handler S σ) (s : σ)

@[simp] theorem run_pure (value : α) : (pure value : Program S ε α).run h s = (.ok value, s) := rfl

@[simp] theorem run_call (c : S.Call) (next : S.Answer c → Program S ε α) :
    (call c next).run h s = (next (h c s).1).run h (h c s).2 := rfl

@[simp] theorem run_perform (c : S.Call) :
    (perform c : Program S ε (S.Answer c)).run h s = (.ok (h c s).1, (h c s).2) := rfl

theorem run_bind (p : Program S ε α) (f : α → Program S ε β) :
    (p >>= f).run h s =
      match p.run h s with
      | (.ok value, s') => (f value).run h s'
      | (.error error, s') => (.error error, s') := by
  change (p.bind f).run h s = _
  induction p generalizing s with
  | done result => cases result <;> rfl
  | call c next ih => exact ih (h c s).1 (h c s).2

theorem run_bind_ok {value : α} {s s' : σ}
    (hp : p.run h s = (.ok value, s')) : (p >>= f).run h s = (f value).run h s' := by
  rw [run_bind, hp]

theorem run_bind_pure_snd (p : Program S ε α) (f : α → β) (s : σ) :
    ((p >>= fun value => pure (f value)).run h s).2 = (p.run h s).2 := by
  rw [run_bind]
  cases p.run h s with
  | mk answer s' => cases answer <;> rfl

theorem run_bind_error {error : ε} {s s' : σ}
    (hp : p.run h s = (.error error, s')) : (p >>= f).run h s = (.error error, s') := by
  rw [run_bind, hp]

@[simp] theorem run_attempt (p : Program S ε α) :
    (p.attempt : Program S ε' (Except ε α)).run h s = (.ok (p.run h s).1, (p.run h s).2) := by
  induction p generalizing s with
  | done result => rfl
  | call c next ih => exact ih (h c s).1 (h c s).2

end Run

/-! ## Programs that only read -/

section Reads

variable (h : Handler S σ)

/-- From every state the program returns `f` of that state and leaves it as it was. -/
def Reads (p : Program S ε α) (f : σ → α) : Prop := ∀ s, p.run h s = (.ok (f s), s)

variable {h}

theorem Reads.pure (value : α) : Reads h (Pure.pure value : Program S ε α) fun _ => value :=
  fun _ => rfl

theorem Reads.perform {c : S.Call} {f : σ → S.Answer c} (hc : ∀ s, h c s = (f s, s)) :
    Reads h (perform c : Program S ε _) f := by
  intro s
  rw [run_perform, hc s]

theorem Reads.bind {f : σ → α} {k : α → Program S ε β} {g : α → σ → β}
    (hp : Reads h p f) (hk : ∀ value, Reads h (k value) (g value)) :
    Reads h (p >>= k) fun s => g (f s) s := by
  intro s
  rw [run_bind_ok h (hp s)]
  exact hk (f s) s

theorem Reads.mapM {k : α → Program S ε β} {g : α → σ → β}
    (hk : ∀ value, Reads h (k value) (g value))
    (items : List α) : Reads h (items.mapM k) fun s => items.map fun item => g item s := by
  induction items with
  | nil => exact Reads.pure []
  | cons item items ih =>
    rw [List.mapM_cons]
    exact (hk item).bind fun value => ih.bind fun values => Reads.pure (value :: values)

theorem Reads.congr {f g : σ → α} (hp : Reads h p f) (hfg : ∀ s, f s = g s) : Reads h p g := by
  intro s
  rw [hp s, hfg s]

end Reads

/-! ## Which calls a program can make -/

/-- Every call the program can make, whatever the answers, satisfies `P`. -/
def Calls (P : S.Call → Prop) : Program S ε α → Prop
  | .done _ => True
  | .call c next => P c ∧ ∀ answer, (next answer).Calls P

variable {P Q : S.Call → Prop}

@[simp] theorem calls_pure (value : α) : (pure value : Program S ε α).Calls P := trivial

@[simp] theorem calls_throw (error : ε) : (throw error : Program S ε α).Calls P := trivial

@[simp] theorem calls_perform {c : S.Call} : (perform c : Program S ε _).Calls P ↔ P c :=
  ⟨fun h => h.1, fun h => ⟨h, fun _ => trivial⟩⟩

theorem Calls.bind (hp : p.Calls P) (hf : ∀ value, (f value).Calls P) : (p >>= f).Calls P := by
  change (p.bind f).Calls P
  induction p with
  | done result =>
    cases result with
    | ok value => exact hf value
    | error error => trivial
  | call c next ih => exact ⟨hp.1, fun answer => ih answer (hp.2 answer)⟩

theorem Calls.forM {items : List β} {f : β → Program S ε PUnit} (hf : ∀ item, (f item).Calls P) :
    (items.forM f).Calls P := by
  induction items with
  | nil => trivial
  | cons item items ih => exact (hf item).bind fun _ => ih

theorem Calls.mapM {items : List α} (hf : ∀ item, (f item).Calls P) : (items.mapM f).Calls P := by
  induction items with
  | nil => exact calls_pure _
  | cons item items ih =>
    rw [List.mapM_cons]
    exact (hf item).bind fun _ => ih.bind fun _ => calls_pure _

theorem Calls.mono (hp : p.Calls P) (h : ∀ c, P c → Q c) : p.Calls Q := by
  induction p with
  | done result => trivial
  | call c next ih => exact ⟨h c hp.1, fun answer => ih answer (hp.2 answer)⟩

theorem Calls.run_rel (hp : p.Calls P) {h : Handler S σ} {R : σ → σ → Prop}
    (hrefl : ∀ s, R s s) (htrans : ∀ {a b c}, R a b → R b c → R a c)
    (hcall : ∀ c, P c → ∀ s, R s (h c s).2) (s : σ) : R s (p.run h s).2 := by
  induction p generalizing s with
  | done result => exact hrefl s
  | call c next ih =>
    exact htrans (hcall c hp.1 s) (ih (h c s).1 (hp.2 _) (h c s).2)

/-- A component of the state that no permitted call changes is the same at both ends. -/
theorem Calls.run_eq (hp : p.Calls P) {h : Handler S σ} {γ : Type}
    (view : σ → γ) (hcall : ∀ c, P c → ∀ s, view (h c s).2 = view s) (s : σ) :
    view (p.run h s).2 = view s :=
  hp.run_rel (R := fun a b => view b = view a) (fun _ => rfl)
    (fun hab hbc => hbc.trans hab) hcall s

/-! ## Which errors a program can throw -/

/-- Every error the program can end with, whatever the answers, satisfies `E`. -/
def Throws (E : ε → Prop) : Program S ε α → Prop
  | .done (.ok _) => True
  | .done (.error error) => E error
  | .call _ next => ∀ answer, (next answer).Throws E

variable {E : ε → Prop}

@[simp] theorem throws_pure (value : α) : (pure value : Program S ε α).Throws E := trivial

theorem throws_throw {error : ε} (herror : E error) : (throw error : Program S ε α).Throws E :=
  herror

@[simp] theorem throws_perform (c : S.Call) : (perform c : Program S ε _).Throws E :=
  fun _ => trivial

theorem Throws.bind (hp : p.Throws E) (hf : ∀ value, (f value).Throws E) : (p >>= f).Throws E := by
  change (p.bind f).Throws E
  induction p with
  | done result =>
    cases result with
    | ok value => exact hf value
    | error error => exact hp
  | call c next ih => exact fun answer => ih answer (hp answer)

theorem Throws.forM {items : List β} {f : β → Program S ε PUnit}
    (hf : ∀ item, (f item).Throws E) : (items.forM f).Throws E := by
  induction items with
  | nil => trivial
  | cons item items ih => exact (hf item).bind fun _ => ih

theorem Throws.run (hp : p.Throws E) {h : Handler S σ} {s s' : σ} {error : ε}
    (hrun : p.run h s = (.error error, s')) : E error := by
  induction p generalizing s with
  | done result =>
    cases hrun
    exact hp
  | call c next ih => exact ih (h c s).1 (hp _) hrun

end Program

/-! ## Calls that fail

`faulty` adds a schedule of failures to a handler. A program of queries ends as it does without
failures, or with an error (`Queries.run_faulty`). -/

variable {S : Signature} {ε α β σ : Type}

/-- The handler with a schedule of failures. The answer of a call that fails is `refuse`, which is
`none` for the calls that cannot fail; after the last entry no call fails. -/
def faulty (h : Handler S σ) (refuse : (c : S.Call) → Option (S.Answer c)) :
    Handler S (σ × List Bool) :=
  fun c s =>
    match refuse c, s.2 with
    | some answer, true :: rest => (answer, s.1, rest)
    | some _, false :: rest => ((h c s.1).1, (h c s.1).2, rest)
    | _, faults => ((h c s.1).1, (h c s.1).2, faults)

variable {h : Handler S σ} {refuse : (c : S.Call) → Option (S.Answer c)}

theorem faulty_cases (c : S.Call) (s : σ) (faults : List Bool) :
    ∃ rest, (∃ answer, refuse c = some answer ∧ faulty h refuse c (s, faults) = (answer, s, rest)) ∨
      faulty h refuse c (s, faults) = ((h c s).1, (h c s).2, rest) := by
  unfold faulty
  split
  case h_1 answer rest hrefuse _ => exact ⟨rest, .inl ⟨answer, hrefuse, rfl⟩⟩
  case h_2 rest _ _ => exact ⟨rest, .inr rfl⟩
  case h_3 => exact ⟨_, .inr rfl⟩

namespace Program

def Queries (h : Handler S σ) (refuse : (c : S.Call) → Option (S.Answer c)) :
    Program S ε α → Prop
  | .done _ => True
  | .call c next =>
    (∀ s, (h c s).2 = s) ∧
      (∀ answer, refuse c = some answer → ∃ error, next answer = .done (.error error)) ∧
      ∀ answer, (next answer).Queries h refuse

theorem queries_pure (value : α) : (pure value : Program S ε α).Queries h refuse := trivial

theorem queries_throw (error : ε) : (throw error : Program S ε α).Queries h refuse := trivial

theorem queries_perform {c : S.Call} (hread : ∀ s, (h c s).2 = s) (hrefuse : refuse c = none) :
    (perform c : Program S ε _).Queries h refuse := by
  refine ⟨hread, fun answer hanswer => ?_, fun _ => trivial⟩
  rw [hrefuse] at hanswer
  cases hanswer

theorem Queries.bind {p : Program S ε α} {f : α → Program S ε β} (hp : p.Queries h refuse)
    (hf : ∀ value, (f value).Queries h refuse) : (p >>= f).Queries h refuse := by
  change (p.bind f).Queries h refuse
  induction p with
  | done result =>
    cases result with
    | ok value => exact hf value
    | error error => trivial
  | call c next ih =>
    obtain ⟨hread, hrefuse, hnext⟩ := hp
    refine ⟨hread, fun answer hanswer => ?_, fun answer => ih answer (hnext answer)⟩
    obtain ⟨error, herror⟩ := hrefuse answer hanswer
    exact ⟨error, congrArg (Program.bind · f) herror⟩

theorem Queries.mapM {items : List α} {f : α → Program S ε β}
    (hf : ∀ item, (f item).Queries h refuse) : (items.mapM f).Queries h refuse := by
  induction items with
  | nil => exact queries_pure []
  | cons item items ih =>
    rw [List.mapM_cons]
    exact (hf item).bind fun _ => ih.bind fun _ => queries_pure _

theorem Queries.run_faulty {p : Program S ε α} (hp : p.Queries h refuse) (s : σ)
    (faults : List Bool) :
    ∃ rest, p.run (faulty h refuse) (s, faults) = ((p.run h s).1, s, rest) ∨
      ∃ error, p.run (faulty h refuse) (s, faults) = (.error error, s, rest) := by
  induction p generalizing faults with
  | done result => exact ⟨faults, .inl rfl⟩
  | call c next ih =>
    obtain ⟨hread, hrefuse, hnext⟩ := hp
    rw [run_call, run_call, hread s]
    obtain ⟨rest, ⟨answer, hanswer, hcall⟩ | hcall⟩ := faulty_cases (h := h) c s faults
    · obtain ⟨error, herror⟩ := hrefuse answer hanswer
      exact ⟨rest, .inr ⟨error, by rw [hcall, herror]; rfl⟩⟩
    · rw [hcall, hread s]
      exact ih _ (hnext _) rest

theorem Queries.run_eq_ok {p : Program S ε α} (hp : p.Queries h refuse) {s : σ}
    {faults : List Bool} {value : α}
    (hok : (p.run (faulty h refuse) (s, faults)).1 = .ok value) : (p.run h s).1 = .ok value := by
  obtain ⟨rest, hsame | ⟨error, herror⟩⟩ := hp.run_faulty s faults
  · rw [hsame] at hok
    exact hok
  · rw [herror] at hok
    cases hok

end Program

end Crabscale.Interaction
