import MetalFs.Lib.Segments

/-!
# Copying through a layout

A memory gives every address a value.  `gather` reads the positions of a list of
segments one after the other, and `scatter` stores a list of values there, as many
as there are.

* `getElem?_gather`: position `i` of the result is what its address holds;
* `scatter_locate`, `scatter_outside`: what a memory holds afterwards.
-/

namespace Segments

variable {α : Type}

/-- The values from an address on, `count` of them. -/
def fetch (memory : Nat → α) (start count : Nat) : List α :=
  (List.range count).map fun i => memory (start + i)

/-- The memory with `data` stored from an address on. -/
def store (memory : Nat → α) (start : Nat) (data : List α) : Nat → α :=
  fun x => if start ≤ x then data[x - start]?.getD (memory x) else memory x

/-- The values of the positions of a layout. -/
def gather (memory : Nat → α) : List Segment → List α
  | [] => []
  | s :: l => fetch memory s.start s.count ++ gather memory l

/-- The memory with `data` stored at the positions of a layout. -/
def scatter (memory : Nat → α) : List Segment → List α → Nat → α
  | [], _ => memory
  | s :: l, data => scatter (store memory s.start (data.take s.count)) l (data.drop s.count)

section Single

variable {memory : Nat → α} {start count i x : Nat} {data : List α}

@[simp] theorem length_fetch (memory : Nat → α) (start count : Nat) :
    (fetch memory start count).length = count := by
  simp only [fetch, List.length_map, List.length_range]

theorem getElem?_fetch (below : i < count) :
    (fetch memory start count)[i]? = some (memory (start + i)) := by
  simp only [fetch, List.getElem?_map, List.getElem?_range below, Option.map_some]

theorem store_inside {a : α} (present : data[i]? = some a) :
    store memory start data (start + i) = a := by
  simp only [store, Nat.le_add_right, if_true, Nat.add_sub_cancel_left, present, Option.getD_some]

theorem store_outside (outside : x < start ∨ start + data.length ≤ x) :
    store memory start data x = memory x := by
  unfold store
  split
  · rw [List.getElem?_eq_none (by omega), Option.getD_none]
  · rfl

theorem fetch_store (memory : Nat → α) (start : Nat) (data : List α) :
    fetch (store memory start data) start data.length = data := by
  refine List.ext_getElem? ?_
  intro i
  rcases Nat.lt_or_ge i data.length with inside | beyond
  · rw [getElem?_fetch inside, List.getElem?_eq_getElem inside,
      store_inside (List.getElem?_eq_getElem inside)]
  · rw [List.getElem?_eq_none (by rw [length_fetch]; exact beyond),
      List.getElem?_eq_none beyond]

theorem store_nil (memory : Nat → α) (start : Nat) : store memory start [] = memory := by
  funext x
  refine store_outside ?_
  rw [List.length_nil]
  omega

end Single

section Layouts

variable {memory memory' : Nat → α} {l r : List Segment} {data : List α} {i x : Nat}

@[simp] theorem length_gather (memory : Nat → α) (l : List Segment) :
    (gather memory l).length = total l := by
  induction l with
  | nil => rfl
  | cons s l ih => rw [gather, List.length_append, length_fetch, ih, total_cons]

theorem getElem?_gather (located : locate l i = some x) : (gather memory l)[i]? = some (memory x) := by
  induction l generalizing i with
  | nil => cases located
  | cons s l ih =>
    rw [locate] at located
    rw [gather]
    split at located
    · rename_i inside
      cases located
      rw [List.getElem?_append_left (by rw [length_fetch]; exact inside), getElem?_fetch inside]
    · rename_i beyond
      rw [List.getElem?_append_right (by rw [length_fetch]; omega), length_fetch]
      exact ih located

theorem scatter_nil (memory : Nat → α) (l : List Segment) : scatter memory l [] = memory := by
  induction l generalizing memory with
  | nil => rfl
  | cons s l ih => rw [scatter, List.take_nil, List.drop_nil, store_nil, ih]

/-- Only addresses of the layout are stored to. -/
theorem scatter_outside (outside : ∀ s ∈ l, ¬ s.Contains x) : scatter memory l data x = memory x := by
  induction l generalizing memory data with
  | nil => rfl
  | cons s l ih =>
    rw [scatter, ih fun t member => outside t (List.mem_cons_of_mem s member)]
    have here := outside s List.mem_cons_self
    refine store_outside ?_
    rw [List.length_take]
    unfold Segment.Contains at here
    omega

/-- Only addresses of positions below the length of the data are stored to. -/
theorem scatter_unwritten (unwritten : ∀ i < data.length, locate l i ≠ some x) :
    scatter memory l data x = memory x := by
  induction l generalizing memory data with
  | nil => rfl
  | cons s l ih =>
    rw [scatter, ih]
    · refine store_outside ?_
      rw [List.length_take]
      by_contra inside
      have := unwritten (x - s.start) (by omega)
      rw [locate, if_pos (by omega)] at this
      exact this (congrArg some (by omega))
    · intro i below
      rw [List.length_drop] at below
      have := unwritten (s.count + i) (by omega)
      rw [locate, if_neg (by omega), Nat.add_sub_cancel_left] at this
      exact this

/-- Position `i` holds the `i`-th value, where no address stands for two positions. -/
theorem scatter_locate (disjoint : l.Pairwise Segment.Disjoint) {a : α}
    (located : locate l i = some x) (present : data[i]? = some a) :
    scatter memory l data x = a := by
  induction l generalizing memory data i with
  | nil => cases located
  | cons s l ih =>
    obtain ⟨apart, rest⟩ := List.pairwise_cons.mp disjoint
    rw [locate] at located
    rw [scatter]
    split at located
    · rename_i inside
      cases located
      have later : ∀ t ∈ l, ¬ t.Contains (s.start + i) :=
        fun t member => apart t member _ ⟨Nat.le_add_right _ _, by omega⟩
      rw [scatter_outside later]
      exact store_inside (by rw [List.getElem?_take_of_lt inside, present])
    · rename_i beyond
      refine ih rest located ?_
      rw [List.getElem?_drop, Nat.add_sub_cancel' (by omega), present]

end Layouts

/-! ## A range of a list -/

/-- The list with `data` in the place of the values from `offset` on. -/
def splice (values : List α) (offset : Nat) (data : List α) : List α :=
  values.take offset ++ data ++ values.drop (offset + data.length)

theorem getElem?_splice {values data : List α} {offset : Nat} (fits : offset ≤ values.length)
    (i : Nat) : (splice values offset data)[i]? =
      if offset ≤ i ∧ i < offset + data.length then data[i - offset]? else values[i]? := by
  have taken : (values.take offset).length = offset := by
    rw [List.length_take]
    omega
  unfold splice
  rcases Nat.lt_or_ge i offset with before | reached
  · rw [if_neg (by omega), List.append_assoc, List.getElem?_append_left (by omega),
      List.getElem?_take_of_lt before]
  · rcases Nat.lt_or_ge i (offset + data.length) with within | behind
    · rw [if_pos ⟨reached, within⟩, List.getElem?_append_left (by rw [List.length_append]; omega),
        List.getElem?_append_right (by omega), taken]
    · rw [if_neg (by omega), List.getElem?_append_right (by rw [List.length_append]; omega),
        List.length_append, taken, List.getElem?_drop, Nat.add_sub_cancel' behind]

/-! ## Positions by the index of their segment -/

section Index

variable {l : List Segment} {k i : Nat} {s : Segment}

theorem locate_at (present : l[k]? = some s) {offset : Nat} (inside : offset < s.count) :
    locate l (total (l.take k) + offset) = some (s.start + offset) := by
  obtain ⟨below, here⟩ := List.getElem?_eq_some_iff.mp present
  have split : l = l.take k ++ s :: l.drop (k + 1) := by
    rw [← here, ← List.drop_eq_getElem_cons below, List.take_append_drop]
  have found : locate (l.take k ++ s :: l.drop (k + 1)) (total (l.take k) + offset) = _ :=
    locate_split inside
  rw [← split] at found
  exact found

theorem exists_index (below : i < total l) : ∃ k s offset,
    l[k]? = some s ∧ i = total (l.take k) + offset ∧ offset < s.count := by
  obtain ⟨before, s, rest, offset, rfl, rfl, inside⟩ := exists_split below
  refine ⟨before.length, s, offset, ?_, ?_, inside⟩
  · rw [List.getElem?_append_right (Nat.le_refl _), Nat.sub_self, List.getElem?_cons_zero]
  · rw [List.take_left]

theorem exists_locate_of_mem (member : s ∈ l) {x : Nat} (contains : s.Contains x) :
    ∃ i, locate l i = some x := by
  obtain ⟨k, present⟩ := List.mem_iff_getElem?.mp member
  obtain ⟨low, high⟩ := contains
  refine ⟨total (l.take k) + (x - s.start), ?_⟩
  rw [locate_at present (by omega)]
  exact congrArg some (by omega)

/-- Segments are disjoint when no address stands for two positions. -/
theorem pairwise_disjoint_of_inj
    (inj : ∀ i j x, locate l i = some x → locate l j = some x → i = j) :
    l.Pairwise Segment.Disjoint := by
  induction l with
  | nil => exact List.Pairwise.nil
  | cons s l ih =>
    have behind : ∀ i, locate (s :: l) (s.count + i) = locate l i := by
      intro i
      rw [locate, if_neg (by omega), Nat.add_sub_cancel_left]
    refine List.pairwise_cons.mpr ⟨?_, ih ?_⟩
    · intro t member x inS inT
      obtain ⟨j, located⟩ := exists_locate_of_mem member inT
      obtain ⟨low, high⟩ := inS
      have first : locate (s :: l) (x - s.start) = some x := by
        rw [locate, if_pos (by omega)]
        exact congrArg some (by omega)
      have same := inj _ _ x first ((behind j).trans located)
      omega
    · intro i j x first second
      have same := inj _ _ x ((behind i).trans first) ((behind j).trans second)
      omega

end Index

/-! ## Layouts that are one range -/

section Range

variable {α : Type} {l : List Segment} {start : Nat}

theorem gather_of_range (range : ∀ i < total l, locate l i = some (start + i)) (memory : Nat → α) :
    gather memory l = fetch memory start (total l) := by
  refine List.ext_getElem? ?_
  intro i
  rcases Nat.lt_or_ge i (total l) with below | beyond
  · rw [getElem?_gather (range i below), getElem?_fetch below]
  · rw [List.getElem?_eq_none (by rw [length_gather]; exact beyond),
      List.getElem?_eq_none (by rw [length_fetch]; exact beyond)]

theorem scatter_of_range (range : ∀ i < total l, locate l i = some (start + i))
    (memory : Nat → α) (data : List α) :
    scatter memory l data = store memory start (data.take (total l)) := by
  have disjoint : l.Pairwise Segment.Disjoint := by
    refine pairwise_disjoint_of_inj ?_
    intro i j x first second
    rw [range i (lt_total first)] at first
    rw [range j (lt_total second)] at second
    have := first.trans second.symm
    have := Option.some.inj this
    omega
  funext y
  by_cases within : start ≤ y ∧ y < start + min data.length (total l)
  · have located := range (y - start) (by omega)
    have present : data[y - start]? = some data[y - start] := List.getElem?_eq_getElem (by omega)
    rw [Nat.add_sub_cancel' within.1] at located
    rw [scatter_locate disjoint located present]
    have stored : store memory start (data.take (total l)) (start + (y - start)) = _ :=
      store_inside ((List.getElem?_take_of_lt (by omega)).trans present)
    rw [Nat.add_sub_cancel' within.1] at stored
    exact stored.symm
  · rw [store_outside (by rw [List.length_take]; omega), scatter_unwritten]
    intro i written located
    have below := lt_total located
    rw [range i below] at located
    have := Option.some.inj located
    omega

end Range

end Segments
