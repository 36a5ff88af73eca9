import MetalFs.Lib.OrderedStore

/-!
# Words in byte strings

A byte string read as one little-endian number: shifting the number to the right by
whole bytes drops bytes at the front, and masking it keeps bytes at the front.
`beBytes` is the big-endian encoding.
-/

theorem ofLeBytes_lt (bytes : List Byte) : ofLeBytes bytes < 256 ^ bytes.length := by
  induction bytes with
  | nil => exact Nat.one_pos
  | cons byte bytes ih =>
    have low := byte.isLt
    rw [ofLeBytes, List.length_cons, pow_succ']
    omega

theorem ofLeBytes_append (first rest : List Byte) :
    ofLeBytes (first ++ rest) = ofLeBytes first + 256 ^ first.length * ofLeBytes rest := by
  induction first with
  | nil => simp only [List.nil_append, ofLeBytes, List.length_nil, pow_zero, one_mul, zero_add]
  | cons byte first ih =>
    simp only [List.cons_append, ofLeBytes, ih, List.length_cons]
    ring

/-- A right shift drops bytes. -/
theorem ofLeBytes_drop (bytes : List Byte) (k : Nat) :
    ofLeBytes (bytes.drop k) = ofLeBytes bytes / 256 ^ k := by
  rcases Nat.lt_or_ge bytes.length k with short | long
  · rw [List.drop_of_length_le short.le, ofLeBytes, Nat.div_eq_of_lt]
    calc ofLeBytes bytes < 256 ^ bytes.length := ofLeBytes_lt bytes
      _ ≤ 256 ^ k := Nat.pow_le_pow_right (by decide) short.le
  · have whole := ofLeBytes_append (bytes.take k) (bytes.drop k)
    have low := ofLeBytes_lt (bytes.take k)
    rw [List.length_take, Nat.min_eq_left long] at whole low
    rw [List.take_append_drop] at whole
    rw [whole, Nat.add_mul_div_left _ _ (Nat.pow_pos (by decide)), Nat.div_eq_of_lt low,
      Nat.zero_add]

/-- A mask keeps the first bytes. -/
theorem ofLeBytes_take (bytes : List Byte) (k : Nat) :
    ofLeBytes (bytes.take k) = ofLeBytes bytes % 256 ^ k := by
  rcases Nat.lt_or_ge bytes.length k with short | long
  · rw [List.take_of_length_le short.le, Nat.mod_eq_of_lt]
    calc ofLeBytes bytes < 256 ^ bytes.length := ofLeBytes_lt bytes
      _ ≤ 256 ^ k := Nat.pow_le_pow_right (by decide) short.le
  · have whole := ofLeBytes_append (bytes.take k) (bytes.drop k)
    have low := ofLeBytes_lt (bytes.take k)
    rw [List.length_take, Nat.min_eq_left long] at whole low
    rw [List.take_append_drop] at whole
    rw [whole, Nat.add_mul_mod_self_left, Nat.mod_eq_of_lt low]

/-- The `w` low bytes of `n`, most significant byte first. -/
def beBytes (w n : Nat) : List Byte := (leBytes w n).reverse

/-- The number whose big-endian bytes are `bytes`. -/
def ofBeBytes (bytes : List Byte) : Nat := ofLeBytes bytes.reverse

theorem length_beBytes (w n : Nat) : (beBytes w n).length = w := by
  rw [beBytes, List.length_reverse, length_leBytes]

theorem ofBeBytes_beBytes (w n : Nat) : ofBeBytes (beBytes w n) = n % 256 ^ w := by
  rw [ofBeBytes, beBytes, List.reverse_reverse, ofLeBytes_leBytes]

/-- A part of a list that is cut out by its position. -/
theorem slice_append {first word rest : List Byte} {k w : Nat} (place : first.length = k)
    (width : word.length = w) : ((first ++ word ++ rest).drop k).take w = word := by
  rw [List.append_assoc, List.drop_left' place, List.take_left' width]

/-- A part of the front of a list is a part of the list. -/
theorem slice_take (bytes : List Byte) {k w n : Nat} (inside : k + w ≤ n) :
    ((bytes.take n).drop k).take w = (bytes.drop k).take w := by
  rw [List.drop_take, List.take_take, Nat.min_eq_left (by omega)]

theorem length_flatMap_range {f : Nat → List Byte} {w : Nat} (width : ∀ i, (f i).length = w)
    (n : Nat) : ((List.range n).flatMap f).length = w * n := by
  induction n with
  | zero => rfl
  | succ n ih =>
    rw [List.range_succ, List.flatMap_append, List.length_append, ih, List.flatMap_singleton, width]
    rfl

/-- An element of a list whose elements are written with equal size. -/
theorem slice_flatMap {α : Type} {f : α → List Byte} {w : Nat} (width : ∀ a, (f a).length = w)
    (l : List α) {i : Nat} (below : i < l.length) :
    ((l.flatMap f).drop (w * i)).take w = f l[i] := by
  induction l generalizing i with
  | nil => exact absurd below (Nat.not_lt_zero i)
  | cons a l ih =>
    rw [List.flatMap_cons]
    cases i with
    | zero => rw [Nat.mul_zero, List.drop_zero, List.take_left' (width a), List.getElem_cons_zero]
    | succ i =>
      rw [Nat.mul_succ, Nat.add_comm, ← List.drop_drop, List.drop_left' (width a),
        ih (Nat.lt_of_succ_lt_succ below), List.getElem_cons_succ]

/-- An entry of a table of entries of equal size. -/
theorem slice_flatMap_range {f : Nat → List Byte} {w : Nat} (width : ∀ i, (f i).length = w)
    {n i : Nat} (below : i < n) :
    (((List.range n).flatMap f).drop (w * i)).take w = f i := by
  have split : List.range n = List.range i ++ [i] ++ List.range' (i + 1) (n - (i + 1)) := by
    have parts := @List.range'_append_1 0 (i + 1) (n - (i + 1))
    rw [Nat.zero_add, Nat.add_sub_of_le below] at parts
    rw [← List.range_succ, List.range_eq_range', List.range_eq_range', parts]
  rw [split, List.flatMap_append, List.flatMap_append, List.flatMap_singleton]
  exact slice_append (length_flatMap_range width i) (width i)
