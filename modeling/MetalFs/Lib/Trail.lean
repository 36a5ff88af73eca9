import Mathlib

/-!
# Following a partial successor function

`trail next fuel a` lists the elements that `next` leads through from `a` on, and is
`none` if it has not come to an end after `fuel` elements.  `exists_trail` gives it for
an element from which only finitely many others and no cycle are reached, and
`trail_eq_none_of_cycle` says that a cycle is never left.  `trail_of_isChain` computes it.

The second part is about relations that lead from an element to at most one other:
how far one gets from the elements of a cycle.
-/

namespace Trail

open Relation

variable {α : Type}

section Follow

variable (next : α → Option α)

/-- The elements from `a` on. -/
def trail : Nat → α → Option (List α)
  | 0, _ => none
  | fuel + 1, a =>
    match next a with
    | none => some [a]
    | some b => (trail fuel b).map (a :: ·)

/-- `next` leads from `a` to `b`. -/
def Step (a b : α) : Prop := next a = some b

variable {next} {a b z : α} {fuel : Nat} {l : List α}

theorem trail_succ_of_none (last : next a = none) : trail next (fuel + 1) a = some [a] := by
  rw [trail, last]

theorem trail_succ_of_step (step : Step next a b) :
    trail next (fuel + 1) a = (trail next fuel b).map (a :: ·) := by
  rw [trail, step]

/-- A trail ends in an element that `next` leads nowhere from. -/
theorem last_of_trail (finished : trail next fuel a = some l) :
    ∃ z, l.getLast? = some z ∧ ReflTransGen (Step next) a z ∧ next z = none := by
  induction fuel generalizing a l with
  | zero => cases finished
  | succ fuel ih =>
    rcases step : next a with _ | b
    · rw [trail_succ_of_none step] at finished
      cases finished
      exact ⟨a, rfl, .refl, step⟩
    · rw [trail_succ_of_step step] at finished
      rcases Option.map_eq_some_iff.mp finished with ⟨tail, rest, rfl⟩
      rcases ih rest with ⟨z, last, reached, final⟩
      refine ⟨z, ?_, .head step reached, final⟩
      rw [List.getLast?_cons, last]
      rfl

/-- The trail is any list of consecutive elements whose last one has no successor. -/
theorem trail_of_isChain (chain : (a :: l).IsChain (Step next))
    (final : ∀ z ∈ (a :: l).getLast?, next z = none) :
    trail next (l.length + 1) a = some (a :: l) := by
  induction l generalizing a with
  | nil => exact trail_succ_of_none (final a rfl)
  | cons b l ih =>
    rw [List.isChain_cons_cons] at chain
    rw [trail_succ_of_step chain.1, List.length_cons, ih chain.2]
    · rfl
    · intro z isLast
      exact final z (by rwa [List.getLast?_cons_cons])

/-- Nothing reached from `a` is on a cycle, and all of it is in `reached`: then the trail
of `a` has at most as many elements. -/
theorem exists_trail [DecidableEq α] {reached : Finset α}
    (inside : ∀ x, ReflTransGen (Step next) a x → x ∈ reached)
    (acyclic : ∀ x, ReflTransGen (Step next) a x → ¬ TransGen (Step next) x x) :
    ∃ l, trail next reached.card a = some l := by
  generalize count : reached.card = n
  induction n generalizing a reached with
  | zero =>
    rw [Finset.card_eq_zero] at count
    rw [count] at inside
    exact absurd (inside a .refl) (Finset.notMem_empty a)
  | succ n ih =>
    rcases step : next a with _ | b
    · exact ⟨[a], trail_succ_of_none step⟩
    · have later : ∃ l, trail next n b = some l := by
        refine @ih b (reached.erase a) ?_ ?_ ?_
        · intro x path
          refine Finset.mem_erase.mpr ⟨?_, inside x (.head step path)⟩
          -- `a` is not reached again.
          rintro rfl
          exact acyclic x .refl (TransGen.head' step path)
        · intro x path
          exact acyclic x (.head step path)
        · rw [Finset.card_erase_of_mem (inside a .refl), count, Nat.add_sub_cancel]
      rcases later with ⟨l, rest⟩
      exact ⟨a :: l, by rw [trail_succ_of_step step, rest]; rfl⟩

/-- Where the steps come to an element without a successor, the trail ends there. -/
theorem exists_trail_of_stop (path : ReflTransGen (Step next) a z) (stops : next z = none) :
    ∃ fuel l, trail next fuel a = some l ∧ l.getLast? = some z := by
  induction path using ReflTransGen.head_induction_on with
  | refl => exact ⟨1, [z], trail_succ_of_none stops, rfl⟩
  | @head a b step _ ih =>
    rcases ih with ⟨fuel, l, rest, last⟩
    refine ⟨fuel + 1, a :: l, by rw [trail_succ_of_step step, rest]; rfl, ?_⟩
    rw [List.getLast?_cons, last]
    rfl

theorem trail_eq_none_of_turn (turn : TransGen (Step next) b b) : trail next fuel b = none := by
  induction fuel generalizing b with
  | zero => rfl
  | succ fuel ih =>
    rcases TransGen.head'_iff.mp turn with ⟨c, step, back⟩
    rw [trail_succ_of_step step, ih (TransGen.tail' back step)]
    rfl

/-- A trail goes through the elements that are reached. -/
theorem reached_of_mem_trail (finished : trail next fuel a = some l) (isIn : b ∈ l) :
    ReflTransGen (Step next) a b := by
  induction fuel generalizing a l with
  | zero => cases finished
  | succ fuel ih =>
    rcases step : next a with _ | c
    · rw [trail_succ_of_none step] at finished
      cases finished
      rw [List.mem_singleton.mp isIn]
    · rw [trail_succ_of_step step] at finished
      rcases Option.map_eq_some_iff.mp finished with ⟨tail, rest, rfl⟩
      rcases List.mem_cons.mp isIn with rfl | later
      · exact .refl
      · exact .head step (ih rest later)

/-- A trail does not come to an element twice. -/
theorem nodup_of_trail (finished : trail next fuel a = some l) : l.Nodup := by
  induction fuel generalizing a l with
  | zero => cases finished
  | succ fuel ih =>
    rcases step : next a with _ | c
    · rw [trail_succ_of_none step] at finished
      cases finished
      exact List.nodup_singleton a
    · have returned := finished
      rw [trail_succ_of_step step] at finished
      rcases Option.map_eq_some_iff.mp finished with ⟨tail, rest, rfl⟩
      refine List.nodup_cons.mpr ⟨fun again => ?_, ih rest⟩
      have turn : TransGen (Step next) a a := TransGen.head' step (reached_of_mem_trail rest again)
      rw [trail_eq_none_of_turn turn] at returned
      cases returned

theorem head_of_trail (finished : trail next fuel a = some l) : l.head? = some a := by
  cases fuel with
  | zero => cases finished
  | succ fuel =>
    rcases step : next a with _ | c
    · rw [trail_succ_of_none step] at finished
      cases finished
      rfl
    · rw [trail_succ_of_step step] at finished
      rcases Option.map_eq_some_iff.mp finished with ⟨tail, -, rfl⟩
      rfl

/-- A cycle is never left. -/
theorem trail_eq_none_of_cycle (path : ReflTransGen (Step next) a b)
    (turn : TransGen (Step next) b b) : trail next fuel a = none := by
  induction path using ReflTransGen.head_induction_on generalizing fuel with
  | refl => exact trail_eq_none_of_turn turn
  | head step _ ih =>
    cases fuel with
    | zero => rfl
    | succ fuel =>
      rw [trail_succ_of_step step, ih]
      rfl

end Follow

section Functional

variable {R : α → α → Prop} (unique : ∀ {x y z}, R x y → R x z → y = z) {x y z : α}

include unique

/-- From two elements that lead to each other no third one is reached. -/
theorem eq_or_eq_of_reflTransGen (there : R x y) (back : R y x) (path : ReflTransGen R y z) :
    z = x ∨ z = y := by
  induction path with
  | refl => exact .inr rfl
  | tail _ step ih =>
    rcases ih with rfl | rfl
    · exact .inr (unique step there)
    · exact .inl (unique step back)

end Functional

end Trail
