import Mathlib

/-!
# Lists of segments

A `Segment` is an interval of addresses.  A list of segments lays out a sequence
of logical positions one segment after the other: `locate l i` is the address of
position `i`, and there is one exactly below `total l`.

* `locate_append_left`, `locate_append_right`: how a layout continues;
* `locate_mem`: an address lies in one of the segments;
* `locate_inj`: disjoint segments never give two positions one address.
-/

/-- `count` addresses from `start` on. -/
structure Segment where
  start : Nat
  count : Nat
deriving DecidableEq, Repr

namespace Segment

/-- The address lies in the segment. -/
def Contains (s : Segment) (x : Nat) : Prop := s.start ≤ x ∧ x < s.start + s.count

/-- The segments have no address in common. -/
def Disjoint (s t : Segment) : Prop := ∀ x, s.Contains x → ¬ t.Contains x

/-- The segment in units that are `k` times smaller. -/
def scale (k : Nat) (s : Segment) : Segment := ⟨s.start * k, s.count * k⟩

theorem Contains.of_scale {s : Segment} {k x : Nat} (inside : (s.scale k).Contains x) :
    s.Contains (x / k) := by
  obtain ⟨low, high⟩ := inside
  simp only [scale] at low high
  have positive : 0 < k := by
    rcases Nat.eq_zero_or_pos k with rfl | positive
    · omega
    · exact positive
  refine ⟨(Nat.le_div_iff_mul_le positive).mpr low, ?_⟩
  rw [Nat.div_lt_iff_lt_mul positive, Nat.add_mul]
  exact high

theorem Disjoint.scale {s t : Segment} (apart : s.Disjoint t) (k : Nat) :
    (s.scale k).Disjoint (t.scale k) :=
  fun _ inS inT => apart _ inS.of_scale inT.of_scale

end Segment

namespace Segments

/-- The number of positions a list of segments lays out. -/
def total (l : List Segment) : Nat := (l.map Segment.count).sum

/-- The address of a position. -/
def locate : List Segment → Nat → Option Nat
  | [], _ => none
  | s :: l, i => if i < s.count then some (s.start + i) else locate l (i - s.count)

@[simp] theorem total_nil : total [] = 0 := rfl

@[simp] theorem total_cons (s : Segment) (l : List Segment) :
    total (s :: l) = s.count + total l := by
  simp only [total, List.map_cons, List.sum_cons]

@[simp] theorem total_append (l r : List Segment) : total (l ++ r) = total l + total r := by
  simp only [total, List.map_append, List.sum_append]

theorem total_scale (k : Nat) (l : List Segment) :
    total (l.map (Segment.scale k)) = total l * k := by
  induction l with
  | nil => simp
  | cons s l ih => simp only [List.map_cons, total_cons, ih, Segment.scale, Nat.add_mul]

variable {l r : List Segment} {i j x : Nat}

theorem exists_locate (below : i < total l) : ∃ x, locate l i = some x := by
  induction l generalizing i with
  | nil => simp at below
  | cons s l ih =>
    by_cases inside : i < s.count
    · exact ⟨s.start + i, by rw [locate, if_pos inside]⟩
    · rw [total_cons] at below
      obtain ⟨x, located⟩ := ih (i := i - s.count) (by omega)
      exact ⟨x, by rw [locate, if_neg inside]; exact located⟩

theorem lt_total (located : locate l i = some x) : i < total l := by
  induction l generalizing i with
  | nil => cases located
  | cons s l ih =>
    rw [total_cons]
    by_cases inside : i < s.count
    · omega
    · rw [locate, if_neg inside] at located
      have below := ih located
      omega

theorem locate_append_left (below : i < total l) : locate (l ++ r) i = locate l i := by
  induction l generalizing i with
  | nil => simp at below
  | cons s l ih =>
    rw [List.cons_append, locate, locate]
    by_cases inside : i < s.count
    · rw [if_pos inside, if_pos inside]
    · rw [total_cons] at below
      rw [if_neg inside, if_neg inside]
      exact ih (by omega)

theorem locate_append_right (above : total l ≤ i) :
    locate (l ++ r) i = locate r (i - total l) := by
  induction l generalizing i with
  | nil => simp
  | cons s l ih =>
    rw [total_cons] at above
    rw [List.cons_append, locate, if_neg (by omega), ih (by omega), total_cons]
    congr 1
    omega

theorem locate_mem (located : locate l i = some x) : ∃ s ∈ l, s.Contains x := by
  induction l generalizing i with
  | nil => cases located
  | cons s l ih =>
    by_cases inside : i < s.count
    · rw [locate, if_pos inside] at located
      cases located
      exact ⟨s, List.mem_cons_self, by omega, by omega⟩
    · rw [locate, if_neg inside] at located
      obtain ⟨t, member, contains⟩ := ih located
      exact ⟨t, List.mem_cons_of_mem _ member, contains⟩

/-- Positions of pairwise disjoint segments have different addresses. -/
theorem locate_inj (disjoint : l.Pairwise Segment.Disjoint) (first : locate l i = some x)
    (second : locate l j = some x) : i = j := by
  induction l generalizing i j with
  | nil => cases first
  | cons s l ih =>
    obtain ⟨apart, rest⟩ := List.pairwise_cons.mp disjoint
    have outside : ∀ k, k < s.count → s.start + k = x → ∀ m, locate l m ≠ some x := by
      intro k inside here m located
      obtain ⟨t, member, contains⟩ := locate_mem located
      exact apart t member x ⟨by omega, by omega⟩ contains
    rw [locate] at first second
    split at first <;> split at second
    · cases first
      have := Option.some.inj second
      omega
    · rename_i inside _
      exact absurd second (outside i inside (Option.some.inj first) _)
    · rename_i _ inside
      exact absurd first (outside j inside (Option.some.inj second) _)
    · have same := ih rest first second
      omega

/-- The segment of a position, and the place in it. -/
theorem exists_split (below : i < total l) : ∃ before s rest offset,
    l = before ++ s :: rest ∧ i = total before + offset ∧ offset < s.count := by
  induction l generalizing i with
  | nil => simp at below
  | cons s l ih =>
    rcases Nat.lt_or_ge i s.count with inside | beyond
    · exact ⟨[], s, l, i, rfl, by simp, inside⟩
    · rw [total_cons] at below
      obtain ⟨before, t, rest, offset, whole, place, inside⟩ := ih (i := i - s.count) (by omega)
      refine ⟨s :: before, t, rest, offset, by rw [whole]; rfl, ?_, inside⟩
      rw [total_cons]
      omega

theorem locate_split {before rest : List Segment} {s : Segment} {offset : Nat}
    (inside : offset < s.count) :
    locate (before ++ s :: rest) (total before + offset) = some (s.start + offset) := by
  rw [locate_append_right (Nat.le_add_right _ _), Nat.add_sub_cancel_left, locate, if_pos inside]

theorem locate_behind {before rest : List Segment} {s : Segment} :
    locate (before ++ s :: rest) (total before + s.count + i) = locate rest i := by
  rw [locate_append_right (by omega), locate, if_neg (by omega)]
  congr 1
  omega

theorem length_le_total (positive : ∀ s ∈ l, 0 < s.count) : l.length ≤ total l := by
  induction l with
  | nil => simp
  | cons s l ih =>
    have head := positive s List.mem_cons_self
    have tail := ih fun t member => positive t (List.mem_cons_of_mem s member)
    rw [List.length_cons, total_cons]
    omega

/-- A layout repeated once: positions count modulo the total. -/
theorem locate_twice (below : i < 2 * total l) : locate (l ++ l) i = locate l (i % total l) := by
  rcases Nat.lt_or_ge i (total l) with first | second
  · rw [locate_append_left first, Nat.mod_eq_of_lt first]
  · rw [locate_append_right second, Nat.mod_eq_sub_mod second, Nat.mod_eq_of_lt (by omega)]

/-- Disjoint segments inside `[0, N)` have at most `N` positions. -/
theorem total_le {N : Nat} (disjoint : l.Pairwise Segment.Disjoint)
    (inside : ∀ s ∈ l, s.start + s.count ≤ N) : total l ≤ N := by
  have address : ∀ i : Fin (total l), ∃ x, locate l i = some x := fun i => exists_locate i.isLt
  choose x located using address
  have below : ∀ i, x i < N := by
    intro i
    obtain ⟨s, member, low, high⟩ := locate_mem (located i)
    have := inside s member
    omega
  have injective : Function.Injective fun i => (⟨x i, below i⟩ : Fin N) := by
    intro i j same
    have same' : x i = x j := congrArg Fin.val same
    have first := located i
    rw [same'] at first
    exact Fin.ext (locate_inj disjoint first (located j))
  simpa using Fintype.card_le_of_injective _ injective

theorem locate_scale {k : Nat} (positive : 0 < k) (l : List Segment) (i : Nat) :
    locate (l.map (Segment.scale k)) i = (locate l (i / k)).map fun x => x * k + i % k := by
  induction l generalizing i with
  | nil => rfl
  | cons s l ih =>
    have split : i < s.count * k ↔ i / k < s.count := (Nat.div_lt_iff_lt_mul positive).symm
    simp only [List.map_cons, locate, Segment.scale, split]
    by_cases inside : i / k < s.count
    · have whole := Nat.div_add_mod' i k
      rw [if_pos inside, if_pos inside, Option.map_some, Nat.add_mul, Nat.add_assoc, whole]
    · have above : s.count * k ≤ i := by
        rw [← Nat.not_lt, split]
        exact inside
      rw [if_neg inside, if_neg inside, ih, Nat.mul_comm s.count k, Nat.sub_mul_div,
        Nat.sub_mul_mod (by rw [Nat.mul_comm]; exact above)]

/-- The first positions of a layout, in full. -/
def IsPrefix (l r : List Segment) : Prop := ∀ i < total l, locate l i = locate r i

theorem IsPrefix.refl (l : List Segment) : IsPrefix l l := fun _ _ => rfl

theorem IsPrefix.append (l r : List Segment) : IsPrefix l (l ++ r) :=
  fun _ below => (locate_append_left below).symm

theorem IsPrefix.le_total (initial : IsPrefix l r) : total l ≤ total r := by
  rcases Nat.eq_zero_or_pos (total l) with zero | positive
  · omega
  · obtain ⟨x, located⟩ := exists_locate (l := l) (i := total l - 1) (by omega)
    rw [initial _ (by omega)] at located
    have := lt_total located
    omega

theorem IsPrefix.trans {m : List Segment} (first : IsPrefix l m) (second : IsPrefix m r) :
    IsPrefix l r := by
  intro i below
  rw [first i below, second i (by have := first.le_total; omega)]

theorem IsPrefix.scale {k : Nat} (positive : 0 < k) (initial : IsPrefix l r) :
    IsPrefix (l.map (Segment.scale k)) (r.map (Segment.scale k)) := by
  intro i below
  rw [total_scale] at below
  rw [locate_scale positive, locate_scale positive,
    initial _ ((Nat.div_lt_iff_lt_mul positive).mpr below)]

/-- Growing the last segment continues a layout. -/
theorem IsPrefix.grow_last (l : List Segment) (start count more : Nat) :
    IsPrefix (l ++ [⟨start, count⟩]) (l ++ [⟨start, count + more⟩]) := by
  intro i below
  simp only [total_append, total_cons, total_nil] at below
  by_cases inside : i < total l
  · rw [locate_append_left inside, locate_append_left inside]
  · have within : i - total l < count := by omega
    have within' : i - total l < count + more := by omega
    rw [locate_append_right (by omega), locate_append_right (by omega)]
    simp only [locate, if_pos within, if_pos within']

end Segments
