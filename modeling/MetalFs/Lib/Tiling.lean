import Mathlib

/-!
# Exact partitions of an initial segment

A partial function `pieces : Nat → Option Nat` names intervals by their first
element: `pieces o = some n` is the interval `[o, o + n)`.  `Tiling pieces N`
says that these intervals are non-empty, pairwise disjoint, stay below `N` and
leave no element of `[0, N)` out.  Sorted by their first element they therefore
start at `0`, follow each other without gap or overlap, and end at `N`.

Cutting one piece in two (`Tiling.split`) and joining a piece with the one that
begins where it ends (`Tiling.merge`) keep a tiling.
-/

/-- The pieces are an exact partition of `[0, N)`. -/
structure Tiling (pieces : Nat → Option Nat) (N : Nat) : Prop where
  pos : ∀ {o n}, pieces o = some n → 0 < n
  le : ∀ {o n}, pieces o = some n → o + n ≤ N
  disjoint : ∀ {o n o' n'}, pieces o = some n → pieces o' = some n' → o < o' → o + n ≤ o'
  covered : ∀ {x}, x < N → ∃ o n, pieces o = some n ∧ o ≤ x ∧ x < o + n

namespace Tiling

variable {pieces : Nat → Option Nat} {N o n : Nat}

theorem single (positive : 0 < N) :
    Tiling (Function.update (fun _ => none) 0 (some N)) N := by
  constructor
  · intro o n piece
    grind [Function.update_apply]
  · intro o n piece
    grind [Function.update_apply]
  · intro o n o' n' piece piece' before
    grind [Function.update_apply]
  · intro x below
    exact ⟨0, N, by simp, Nat.zero_le x, by omega⟩

/-- No piece begins strictly inside another one. -/
theorem eq_none_of_inside (tiling : Tiling pieces N) (piece : pieces o = some n) {x : Nat}
    (after : o < x) (before : x < o + n) : pieces x = none := by
  cases inner : pieces x with
  | none => rfl
  | some m =>
    have apart := tiling.disjoint piece inner after
    omega

/-- The piece that contains an element is unique. -/
theorem eq_of_mem (tiling : Tiling pieces N) {o' n' x : Nat} (piece : pieces o = some n)
    (piece' : pieces o' = some n') (low : o ≤ x) (high : x < o + n) (low' : o' ≤ x)
    (high' : x < o' + n') : o = o' := by
  rcases Nat.lt_trichotomy o o' with before | same | after
  · have apart := tiling.disjoint piece piece' before
    omega
  · exact same
  · have apart := tiling.disjoint piece' piece after
    omega

/-- A piece that does not reach the end is followed by another one. -/
theorem exists_next (tiling : Tiling pieces N) (piece : pieces o = some n) (short : o + n < N) :
    ∃ n', pieces (o + n) = some n' := by
  obtain ⟨o', n', next, low, high⟩ := tiling.covered short
  rcases Nat.lt_trichotomy o' (o + n) with before | same | after
  · rcases Nat.lt_trichotomy o o' with left | same | right
    · have apart := tiling.disjoint piece next left
      omega
    · subst same
      rw [piece] at next
      cases next
      omega
    · have apart := tiling.disjoint next piece right
      have positive := tiling.pos piece
      omega
  · exact ⟨n', by rw [← same]; exact next⟩
  · omega

/-- Cut a piece after its first `a` elements. -/
theorem split (tiling : Tiling pieces N) (piece : pieces o = some n) {a : Nat} (low : 0 < a)
    (high : a < n) :
    Tiling (Function.update (Function.update pieces o (some a)) (o + a) (some (n - a))) N := by
  have inside : ∀ x, o < x → x < o + n → pieces x = none :=
    fun x after before => tiling.eq_none_of_inside piece after before
  have bound := tiling.le piece
  constructor
  · intro p m found
    have positive := @tiling.pos p m
    grind [Function.update_apply]
  · intro p m found
    have below := @tiling.le p m
    grind [Function.update_apply]
  · intro p m p' m' found found' before
    have apart := @tiling.disjoint p m p' m'
    have left := @tiling.disjoint p m o n
    have right := @tiling.disjoint o n p' m'
    grind [Function.update_apply]
  · intro x below
    obtain ⟨p, m, found, low', high'⟩ := tiling.covered below
    by_cases same : p = o
    · subst same
      rw [piece] at found
      cases found
      by_cases first : x < p + a
      · exact ⟨p, a, by grind [Function.update_apply], low', first⟩
      · exact ⟨p + a, n - a, by simp, by omega, by omega⟩
    · refine ⟨p, m, ?_, low', high'⟩
      have other : p ≠ o + a := by
        rintro rfl
        rw [inside (o + a) (by omega) (by omega)] at found
        cases found
      rw [Function.update_of_ne other, Function.update_of_ne same, found]

/-- Join a piece with the one that begins where it ends. -/
theorem merge (tiling : Tiling pieces N) {b : Nat} (piece : pieces o = some n)
    (next : pieces (o + n) = some b) :
    Tiling (Function.update (Function.update pieces (o + n) none) o (some (n + b))) N := by
  have positive := tiling.pos piece
  have positive' := tiling.pos next
  have bound := tiling.le next
  constructor
  · intro p m found
    have positive'' := @tiling.pos p m
    grind [Function.update_apply]
  · intro p m found
    have below := @tiling.le p m
    grind [Function.update_apply]
  · intro p m p' m' found found' before
    have apart := @tiling.disjoint p m p' m'
    have left := @tiling.disjoint p m o n
    have right := @tiling.disjoint o n p' m'
    have right' := @tiling.disjoint (o + n) b p' m'
    grind [Function.update_apply]
  · intro x below
    obtain ⟨p, m, found, low, high⟩ := tiling.covered below
    by_cases same : p = o
    · subst same
      rw [piece] at found
      cases found
      exact ⟨p, n + b, by simp, low, by omega⟩
    · by_cases second : p = o + n
      · subst second
        rw [next] at found
        cases found
        exact ⟨o, n + b, by simp, by omega, by omega⟩
      · exact ⟨p, m, by rw [Function.update_of_ne same, Function.update_of_ne second, found],
          low, high⟩

end Tiling
