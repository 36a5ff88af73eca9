import Mathlib

/-!
# Runs of a partial step function

`run step s ops` performs the operations of `ops` one after another and is `none`
as soon as one of them does not return.  `Steps step P s ops` says that each
operation of the run satisfies `P` in the state it is performed in.  A property
of whole runs follows from what one step preserves: `run_of_steps` where every
admitted step returns, `inv_of_run` for the runs that do.  `reaches_of_run` gives the goals
that a run comes to, and `exists_blocked_run` the run that goes on for as long as it is
admitted to.
-/

namespace Runs

variable {S O : Type} (step : S → O → Option S)

/-- Perform `ops` in order. -/
def run : S → List O → Option S
  | s, [] => some s
  | s, op :: ops => (step s op).bind fun s' => run s' ops

/-- Every operation of the run satisfies `P` where it is performed. -/
def Steps (P : S → O → Prop) : S → List O → Prop
  | _, [] => True
  | s, op :: ops => P s op ∧ ∀ s' ∈ step s op, Steps P s' ops

instance Steps.decidable (P : S → O → Prop) [∀ s op, Decidable (P s op)] :
    ∀ s ops, Decidable (Steps step P s ops)
  | _, [] => inferInstanceAs (Decidable True)
  | s, op :: ops =>
    have : ∀ s', Decidable (Steps step P s' ops) := fun s' => Steps.decidable P s' ops
    inferInstanceAs (Decidable (P s op ∧ ∀ s' ∈ step s op, Steps step P s' ops))

variable {step}

/-- What every admitted step returns and preserves, every admitted run does. -/
theorem run_of_steps {P : S → O → Prop} {I : S → Prop}
    (preserved : ∀ {s op}, I s → P s op → ∃ s', step s op = some s' ∧ I s')
    {s : S} (start : I s) {ops : List O} (steps : Steps step P s ops) :
    ∃ s', run step s ops = some s' ∧ I s' := by
  induction ops generalizing s with
  | nil => exact ⟨s, rfl, start⟩
  | cons op ops ih =>
    obtain ⟨admitted, rest⟩ := steps
    obtain ⟨s₁, returned, kept⟩ := preserved start admitted
    obtain ⟨s', finished, final⟩ := ih kept (rest s₁ returned)
    exact ⟨s', by rw [run, returned]; exact finished, final⟩

/-- What every admitted step that returns preserves, every admitted run does. -/
theorem inv_of_run {P : S → O → Prop} {I : S → Prop}
    (preserved : ∀ {s op s'}, I s → P s op → step s op = some s' → I s')
    {s s' : S} (start : I s) {ops : List O} (steps : Steps step P s ops)
    (finished : run step s ops = some s') : I s' := by
  induction ops generalizing s with
  | nil =>
    cases finished
    exact start
  | cons op ops ih =>
    obtain ⟨admitted, rest⟩ := steps
    obtain ⟨s₁, returned, finished⟩ := Option.bind_eq_some_iff.mp finished
    exact ih (preserved start admitted returned) (rest s₁ returned) finished

theorem Steps.all (s : S) (ops : List O) : Steps step (fun _ _ => True) s ops := by
  induction ops generalizing s with
  | nil => trivial
  | cons op ops ih => exact ⟨trivial, fun s' _ => ih s'⟩

theorem Steps.of_forall {A : O → Prop} {s : S} {ops : List O} (admitted : ∀ op ∈ ops, A op) :
    Steps step (fun _ op => A op) s ops := by
  induction ops generalizing s with
  | nil => trivial
  | cons op ops ih =>
    rw [List.forall_mem_cons] at admitted
    exact ⟨admitted.1, fun s' _ => ih admitted.2⟩

/-- What every step preserves, every run does. -/
theorem inv_of_steps {I : S → Prop} (preserved : ∀ {s op s'}, I s → step s op = some s' → I s')
    {s s' : S} (start : I s) {ops : List O} (finished : run step s ops = some s') : I s' :=
  inv_of_run (fun kept _ returned => preserved kept returned) start (Steps.all s ops) finished

/-- Two conditions that agree wherever the first one has held so far hold in the same runs. -/
theorem steps_congr {A P Q : S → O → Prop} {I : S → Prop}
    (same : ∀ {s op}, I s → A s op → (P s op ↔ Q s op))
    (preserved : ∀ {s op s'}, I s → A s op → P s op → step s op = some s' → I s')
    {s : S} (start : I s) {ops : List O} (admitted : Steps step A s ops) :
    Steps step P s ops ↔ Steps step Q s ops := by
  induction ops generalizing s with
  | nil => exact Iff.rfl
  | cons op ops ih =>
    obtain ⟨first, rest⟩ := admitted
    have head := same start first
    constructor
    · rintro ⟨holds, later⟩
      refine ⟨head.mp holds, ?_⟩
      intro s' returned
      exact (ih (preserved start first holds returned) (rest s' returned)).mp (later s' returned)
    · rintro ⟨holds, later⟩
      refine ⟨head.mpr holds, ?_⟩
      intro s' returned
      exact (ih (preserved start first (head.mpr holds) returned) (rest s' returned)).mpr
        (later s' returned)

theorem run_append (s : S) (ops ops' : List O) :
    run step s (ops ++ ops') = (run step s ops).bind fun s' => run step s' ops' := by
  induction ops generalizing s with
  | nil => rfl
  | cons op ops ih =>
    rw [List.cons_append, run, run, Option.bind_assoc]
    exact congrArg _ (funext ih)

theorem Steps.append {P : S → O → Prop} {s : S} {ops ops' : List O} (first : Steps step P s ops)
    (rest : ∀ s', run step s ops = some s' → Steps step P s' ops') :
    Steps step P s (ops ++ ops') := by
  induction ops generalizing s with
  | nil => exact rest s rfl
  | cons op ops ih =>
    refine ⟨first.1, ?_⟩
    intro s' returned
    refine ih (first.2 s' returned) ?_
    intro s'' finished
    exact rest s'' (by rw [run, Option.mem_def.mp returned, Option.bind_some, finished])

/-- If every step makes `size` smaller, a run has no more steps than the size allows. -/
theorem length_of_run (size : S → Nat)
    (smaller : ∀ {s op s'}, step s op = some s' → size s' < size s) {s s' : S} {ops : List O}
    (finished : run step s ops = some s') : ops.length + size s' ≤ size s := by
  induction ops generalizing s with
  | nil =>
    cases finished
    rw [List.length_nil, Nat.zero_add]
  | cons op ops ih =>
    obtain ⟨s₁, returned, finished⟩ := Option.bind_eq_some_iff.mp finished
    have first := smaller returned
    have later := ih finished
    rw [List.length_cons]
    omega

/-- The steps of the run that satisfy `live` where they are performed. -/
def countSteps (step : S → O → Option S) (live : S → O → Bool) : S → List O → Nat
  | _, [] => 0
  | s, op :: ops =>
    (live s op).toNat + ((step s op).map fun s' => countSteps step live s' ops).getD 0

/-- A goal that stays reached, and that `live` steps come closer to, is reached after as many
of them as `size` allows. -/
theorem reaches_of_run {I G : S → Prop} {P : O → Prop} (size : S → Nat) (live : S → O → Bool)
    (progress : ∀ {s op s'}, I s → P op → step s op = some s' →
      I s' ∧ (G s' ∨ ¬ G s ∧ size s' + (live s op).toNat ≤ size s))
    {s s' : S} (start : I s) {ops : List O} (admitted : ∀ op ∈ ops, P op)
    (finished : run step s ops = some s') :
    I s' ∧ (G s' ∨ ¬ G s ∧ size s' + countSteps step live s ops ≤ size s) := by
  induction ops generalizing s with
  | nil =>
    cases finished
    refine ⟨start, ?_⟩
    rcases Classical.em (G s') with reached | ahead
    · exact Or.inl reached
    · exact Or.inr ⟨ahead, Nat.le_refl _⟩
  | cons op ops ih =>
    rw [List.forall_mem_cons] at admitted
    obtain ⟨s₁, returned, finished⟩ := Option.bind_eq_some_iff.mp finished
    obtain ⟨kept, closer⟩ := progress start admitted.1 returned
    obtain ⟨final, rest⟩ := ih kept admitted.2 finished
    refine ⟨final, ?_⟩
    rcases rest with reached | ⟨ahead, left⟩
    · exact Or.inl reached
    · rcases closer with reached | ⟨before, first⟩
      · exact absurd reached ahead
      · refine Or.inr ⟨before, ?_⟩
        rw [countSteps, returned, Option.map_some, Option.getD_some]
        omega

/-- If every admitted step makes `size` smaller, the admitted steps can be continued
until none is left. -/
theorem exists_blocked_run {P : S → O → Prop} {I : S → Prop} (size : S → Nat)
    (preserved : ∀ {s op s'}, I s → P s op → step s op = some s' → I s' ∧ size s' < size s)
    {s : S} (start : I s) :
    ∃ ops s', Steps step P s ops ∧ run step s ops = some s' ∧ I s' ∧
      ∀ op, P s' op → step s' op = none := by
  induction bound : size s using Nat.strong_induction_on generalizing s with
  | _ n ih =>
    rcases Classical.em (∃ op, P s op ∧ ∃ s₁, step s op = some s₁) with found | blocked
    · obtain ⟨op, admitted, s₁, returned⟩ := found
      obtain ⟨kept, smaller⟩ := preserved start admitted returned
      obtain ⟨ops, s', steps, finished, final, blocked⟩ := ih _ (bound ▸ smaller) kept rfl
      refine ⟨op :: ops, s', ⟨admitted, ?_⟩, ?_, final, blocked⟩
      · intro s₂ same
        rw [returned] at same
        cases same
        exact steps
      · rw [run, returned]
        exact finished
    · refine ⟨[], s, trivial, rfl, start, ?_⟩
      intro op admitted
      rcases returned : step s op with _ | s₁
      · rfl
      · exact absurd ⟨op, admitted, s₁, returned⟩ blocked

end Runs
