import Mathlib

/-!
# Double buffers

A buffer of two halves into which a party writes one chunk after another, chunk `k`
to the half `k.bodd`.  `Holds` says that the chunks which were written and not yet
taken are still there; writing one more is safe as long as at most one is waiting.
-/

/-- The contents of the two halves. -/
abbrev DoubleBuffer (α : Type) := Bool → List α

namespace DoubleBuffer

variable {α : Type} {memory : DoubleBuffer α} {chunks : Nat → List α} {lo hi : Nat}

/-- Write `items` to the beginning of a half. -/
def fill (memory : DoubleBuffer α) (half : Bool) (items : List α) : DoubleBuffer α :=
  fun other => if other = half then items ++ (memory half).drop items.length else memory other

theorem fill_same (half : Bool) (items : List α) :
    (memory.fill half items half).take items.length = items := by
  unfold fill
  rw [if_pos rfl, List.take_left]

theorem fill_other {half other : Bool} (items : List α) (different : other ≠ half) :
    memory.fill half items other = memory other := by
  unfold fill
  rw [if_neg different]

/-- Writing what is there already. -/
theorem fill_replicate {m n : Nat} (small : m ≤ n) (half : Bool) (item : α) :
    fill (fun _ => List.replicate n item) half (List.replicate m item) =
      fun _ => List.replicate n item := by
  funext other
  unfold fill
  split
  · rw [List.length_replicate, List.drop_replicate, List.replicate_append_replicate,
      Nat.add_sub_cancel' small]
  · rfl

/-- The chunks `lo`, …, `hi - 1` are in their halves. -/
def Holds (memory : DoubleBuffer α) (chunks : Nat → List α) (lo hi : Nat) : Prop :=
  ∀ k, lo ≤ k → k < hi → (memory k.bodd).take (chunks k).length = chunks k

theorem Holds.empty : Holds memory chunks lo lo := by
  intro k above below
  omega

theorem Holds.mono {lo' : Nat} (holds : Holds memory chunks lo hi) (later : lo ≤ lo') :
    Holds memory chunks lo' hi := by
  intro k above below
  exact holds k (later.trans above) below

/-- Writing the next chunk while at most one is waiting. -/
theorem Holds.fill (holds : Holds memory chunks lo hi) (room : hi ≤ lo + 1) :
    Holds (memory.fill hi.bodd (chunks hi)) chunks lo (hi + 1) := by
  intro k above below
  rcases Nat.lt_or_eq_of_le (Nat.le_of_lt_succ below) with earlier | last
  · have adjacent : hi = k + 1 := by omega
    have different : k.bodd ≠ hi.bodd := by
      rw [adjacent, Nat.bodd_succ]
      exact Bool.self_ne_not _
    rw [fill_other _ different]
    exact holds k above earlier
  · rw [last]
    exact fill_same _ _

end DoubleBuffer
