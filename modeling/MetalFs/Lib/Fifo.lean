import Mathlib

/-!
# FIFO channels

A channel between two parties that send and receive the messages of one sequence in
order holds a segment of the sequence: `between f lo hi` are the messages that were
sent (`hi`) and not yet received (`lo`).
-/

namespace Fifo

variable {α : Type} {f : Nat → α} {lo hi : Nat}

/-- The messages `lo`, …, `hi - 1` of a sequence. -/
def between (f : Nat → α) (lo hi : Nat) : List α := (List.range' lo (hi - lo)).map f

@[simp] theorem between_self : between f lo lo = [] := by simp [between]

theorem between_length : (between f lo hi).length = hi - lo := by simp [between]

/-- Sending the next message. -/
theorem between_send (ordered : lo ≤ hi) : between f lo hi ++ [f hi] = between f lo (hi + 1) := by
  have place : lo + (hi - lo) = hi := by omega
  rw [between, between, Nat.succ_sub ordered, List.range'_1_concat, List.map_append, place]
  rfl

theorem between_cons (nonempty : lo < hi) :
    between f lo hi = f lo :: between f (lo + 1) hi := by
  have more : hi - lo = (hi - (lo + 1)) + 1 := by omega
  rw [between, more, List.range'_succ]
  rfl

/-- Receiving the oldest message. -/
theorem between_receive {message : α} {messages : List α}
    (channel : between f lo hi = message :: messages) :
    lo < hi ∧ message = f lo ∧ messages = between f (lo + 1) hi := by
  have nonempty : lo < hi := by
    have := congrArg List.length channel
    rw [between_length, List.length_cons] at this
    omega
  rw [between_cons nonempty] at channel
  obtain ⟨head, tail⟩ := List.cons.inj channel
  exact ⟨nonempty, head.symm, tail.symm⟩

/-- A channel that is cut at a message. -/
theorem between_append {mid : Nat} (first : lo ≤ mid) (second : mid ≤ hi) :
    between f lo mid ++ between f mid hi = between f lo hi := by
  have place : lo + 1 * (mid - lo) = mid := by omega
  have count : (mid - lo) + (hi - mid) = hi - lo := by omega
  have parts := @List.range'_append lo (mid - lo) (hi - mid) 1
  rw [place, count] at parts
  rw [between, between, between, ← List.map_append, parts]

theorem between_getElem_eq_some {k : Nat} {message : α}
    (found : (between f 0 hi)[k]? = some message) : k < hi ∧ message = f k := by
  unfold between at found
  obtain ⟨below, same⟩ := List.getElem?_eq_some_iff.mp found
  rw [List.length_map, List.length_range'] at below
  rw [List.getElem_map, List.getElem_range'] at same
  have place : 0 + 1 * k = k := by omega
  rw [place] at same
  exact ⟨below, same.symm⟩

theorem between_getElem {k : Nat} (below : k < hi) : (between f 0 hi)[k]? = some (f k) := by
  unfold between
  rw [Nat.sub_zero, List.getElem?_map, List.getElem?_range' below]
  simp only [Nat.one_mul, Nat.zero_add, Option.map_some]

end Fifo
