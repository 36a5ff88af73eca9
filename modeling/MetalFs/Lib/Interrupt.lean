import Mathlib

/-!
# Programs that an exception can interrupt

A program with a state and exceptions makes calls to the outside, any of which may throw.
`failure` says which ones do.  `Leads failure R calls x y` says what such a program does with
the state up to a point: `x` makes the calls of the list, in this order and while none of them
throws, changes the state as `R` allows, and goes on as `y`.  Where one of the calls throws
`x` ends with an exception, and the state has changed as `R` allows, too.

The rules follow the program text, so that the list of calls is computed along with it.
-/

namespace Interrupt

variable {γ ε σ α : Type} {failure : γ → Option ε} {R : σ → σ → Prop} {calls rest : List γ}
  {x y z : EStateM ε σ Unit}

/-- A call to the outside. -/
def perform (failure : γ → Option ε) (call : γ) : EStateM ε σ Unit :=
  match failure call with
  | none => pure ()
  | some e => throw e

/-- `x` makes the calls and goes on as `y`. -/
def Leads (failure : γ → Option ε) (R : σ → σ → Prop) (calls : List γ)
    (x y : EStateM ε σ Unit) : Prop :=
  ∀ s, ∃ s', R s s' ∧ ((∀ call ∈ calls, failure call = none) → x s = y s') ∧
    ((∃ call ∈ calls, failure call ≠ none) → ∃ e, x s = .error e s')

/-- `x` makes the calls and returns. -/
def Performs (failure : γ → Option ε) (R : σ → σ → Prop) (calls : List γ)
    (x : EStateM ε σ Unit) : Prop := Leads failure R calls x (pure ())

theorem bind_of_ok {f : Unit → EStateM ε σ Unit} {s s' : σ} (returned : x s = .ok () s') :
    (x >>= f) s = f () s' := by
  change EStateM.bind x f s = _
  rw [EStateM.bind, returned]

theorem bind_of_error {f : Unit → EStateM ε σ Unit} {s s' : σ} {e : ε} (thrown : x s = .error e s') :
    (x >>= f) s = .error e s' := by
  change EStateM.bind x f s = _
  rw [EStateM.bind, thrown]

/-! ## Rules -/

theorem Leads.refl [Std.Refl R] (x : EStateM ε σ Unit) : Leads failure R [] x x := by
  intro s
  refine ⟨s, refl_of R s, fun _ => rfl, ?_⟩
  rintro ⟨call, isIn, -⟩
  exact absurd isIn List.not_mem_nil

theorem Performs.perform [Std.Refl R] (call : γ) : Performs failure R [call] (perform failure call) := by
  intro s
  refine ⟨s, refl_of R s, ?_, ?_⟩
  · intro returns
    rw [Interrupt.perform, returns call (List.mem_singleton_self call)]
  · rintro ⟨thrower, isIn, throws⟩
    rw [List.mem_singleton.mp isIn] at throws
    rcases Option.ne_none_iff_exists'.mp throws with ⟨e, thrown⟩
    refine ⟨e, ?_⟩
    rw [Interrupt.perform, thrown]
    rfl

theorem Performs.modify {f : σ → σ} (allowed : ∀ s, R s (f s)) :
    Performs failure R [] (modify f) := by
  intro s
  refine ⟨f s, allowed s, fun _ => rfl, ?_⟩
  rintro ⟨call, isIn, -⟩
  exact absurd isIn List.not_mem_nil

theorem Performs.bind [IsTrans σ R] (first : Performs failure R calls x)
    (second : Leads failure R rest y z) :
    Leads failure R (calls ++ rest) (x >>= fun _ => y) z := by
  intro s
  rcases first s with ⟨s₁, changed₁, returns₁, throws₁⟩
  rcases second s₁ with ⟨s₂, changed₂, returns₂, throws₂⟩
  by_cases interrupted : ∃ call ∈ calls, failure call ≠ none
  · refine ⟨s₁, changed₁, ?_, ?_⟩
    · intro returns
      rcases interrupted with ⟨call, isIn, throws⟩
      exact absurd (returns call (List.mem_append_left _ isIn)) throws
    · intro _
      rcases throws₁ interrupted with ⟨e, thrown⟩
      exact ⟨e, bind_of_error thrown⟩
  · push Not at interrupted
    have returned : x s = .ok () s₁ := returns₁ interrupted
    refine ⟨s₂, trans_of R changed₁ changed₂, ?_, ?_⟩
    · intro returns
      rw [bind_of_ok returned]
      exact returns₂ fun call isIn => returns call (List.mem_append_right _ isIn)
    · rintro ⟨call, isIn, throws⟩
      rw [bind_of_ok returned]
      rcases List.mem_append.mp isIn with early | late
      · exact absurd (interrupted call early) throws
      · exact throws₂ ⟨call, late, throws⟩

/-- What follows `x` follows what `x` goes on as. -/
theorem Leads.bind {f : Unit → EStateM ε σ Unit} (leads : Leads failure R calls x y) :
    Leads failure R calls (x >>= f) (y >>= f) := by
  intro s
  rcases leads s with ⟨s', changed, returns, throws⟩
  refine ⟨s', changed, ?_, ?_⟩
  · intro all
    change EStateM.bind x f s = EStateM.bind y f s'
    rw [EStateM.bind, EStateM.bind, returns all]
  · intro interrupted
    rcases throws interrupted with ⟨e, thrown⟩
    exact ⟨e, bind_of_error thrown⟩

/-- A loop with one call in each pass. -/
theorem Performs.forM [Std.Refl R] [IsTrans σ R] {l : List α} {f : α → EStateM ε σ Unit}
    {call : α → γ} (body : ∀ a ∈ l, Performs failure R [call a] (f a)) :
    Performs failure R (l.map call) (l.forM f) := by
  induction l with
  | nil => exact Leads.refl _
  | cons a l ih =>
    rw [List.forall_mem_cons] at body
    exact Performs.bind body.1 (ih body.2)

/-- The state after a program, whether it returns or not. -/
def final (result : EStateM.Result ε σ Unit) : σ :=
  match result with
  | .ok _ s => s
  | .error _ s => s

theorem Performs.final (performs : Performs failure R calls x) (s : σ) : R s (final (x s)) := by
  rcases performs s with ⟨s', changed, returns, throws⟩
  by_cases interrupted : ∃ call ∈ calls, failure call ≠ none
  · rcases throws interrupted with ⟨e, thrown⟩
    rw [thrown]
    exact changed
  · push Not at interrupted
    rw [returns interrupted]
    exact changed

/-! ## Exceptions alone -/

/-- A result that comes after another one. -/
theorem bind_eq_ok {α β : Type} {result : Except ε α} {rest : α → Except ε β} {b : β}
    (ended : (result >>= rest) = .ok b) : ∃ a, result = .ok a ∧ rest a = .ok b := by
  cases result with
  | error e => cases ended
  | ok a => exact ⟨a, rfl, ended⟩

end Interrupt
