import MetalFs.Filesystem.Heap
import MetalFs.Lib.Segments

/-!
# The extent map of the FPGA

`mtl_extmap.cpp`: the extents of a file, loaded by the host, and a cursor over its
blocks.  `mtl_extmap_seek` puts the cursor on a logical block, `mtl_extmap_next`
is meant to move it to the following one.

`mtl_extmap_next` leaves an extent only when the cursor is one block behind its
last one.  A walk is right as long as it stays in the extent it starts in, and
for one block more where that block happens to be physically the next one of the
file; `StaysInExtent` is this condition.
-/

namespace MetalFs.Fpga

open Segments

/-- `StorageBlockSizeD`. -/
def storageBlockSizeD : Nat := 18

/-- `StorageBlockSize`. -/
def storageBlockSize : Nat := 2 ^ storageBlockSizeD

/-- `PagefileSize`. -/
def pagefileSize : Nat := 128 * storageBlockSize

/-- `MaxExtentsPerFile`. -/
def maxExtentsPerFile : Nat := 512

/-- `mtl_extmap_t`; an index into the arrays has nine bits. -/
structure Extmap where
  currentExtent : Nat
  currentPblock : Nat
  extentsBegin : Nat → Nat
  extentsCount : Nat → Nat
  extentsNextlblock : Nat → Nat

/-- The extents the host puts into a map job: `mapExtents` fills up with zeros. -/
def mapExtents (extents : List Segment) (i : Nat) : Segment :=
  match extents[i]? with
  | some extent => ⟨u64 extent.start, u64 extent.count⟩
  | none => ⟨0, 0⟩

/-- `last_block` of `mtl_extmap_load` after `i` rounds. -/
def lastBlock (extents : Nat → Segment) : Nat → Nat
  | 0 => 0
  | i + 1 => u64 (lastBlock extents i + (extents i).count)

/-- `mtl_extmap_load`, from the extents the bus lines hold. -/
def mtlExtmapLoad (extents : Nat → Segment) : Extmap where
  extentsBegin i := (extents i).start
  extentsCount i := (extents i).count
  extentsNextlblock i := lastBlock extents (i + 1)
  currentExtent := 0
  currentPblock := (extents 0).start

/-- `mtl_extmap_firstlblock`. -/
def mtlExtmapFirstlblock (map : Extmap) (extent : Nat) : Nat :=
  if extent = 0 then 0 else map.extentsNextlblock (extent - 1)

/-- Put the cursor on a block of an extent. -/
def Extmap.moveTo (map : Extmap) (extent pblock : Nat) : Extmap :=
  { map with currentExtent := extent, currentPblock := pblock }

/-- `mtl_extmap_seek`, with its result. -/
def mtlExtmapSeek (map : Extmap) (lblock : Nat) : Extmap × Bool :=
  let found := (List.range maxExtentsPerFile).find? fun iExtent =>
    mtlExtmapFirstlblock map iExtent ≤ lblock ∧ lblock < map.extentsNextlblock iExtent
  match found with
  | some iExtent =>
    let offset := lblock - mtlExtmapFirstlblock map iExtent
    (map.moveTo iExtent (u64 (map.extentsBegin iExtent + offset)), true)
  | none => (map, false)

/-- `mtl_extmap_next`. -/
def mtlExtmapNext (map : Extmap) : Extmap :=
  let boffset := u64 (map.currentPblock + 2 ^ 64 - map.extentsBegin map.currentExtent)
  if boffset < map.extentsCount map.currentExtent then
    map.moveTo map.currentExtent (u64 (map.currentPblock + 1))
  else
    let currentExtent := (map.currentExtent + 1) % maxExtentsPerFile
    map.moveTo currentExtent (map.extentsBegin currentExtent)

/-- `mtl_extmap_pblock`. -/
def mtlExtmapPblock (map : Extmap) : Nat := map.currentPblock

section Cursor

variable {map : Extmap} {i j p q : Nat}

@[simp] theorem Extmap.moveTo_moveTo : (map.moveTo i p).moveTo j q = map.moveTo j q := rfl

@[simp] theorem Extmap.moveTo_currentExtent : (map.moveTo i p).currentExtent = i := rfl

@[simp] theorem Extmap.moveTo_currentPblock : (map.moveTo i p).currentPblock = p := rfl

@[simp] theorem Extmap.moveTo_extentsBegin : (map.moveTo i p).extentsBegin = map.extentsBegin :=
  rfl

@[simp] theorem Extmap.moveTo_extentsCount : (map.moveTo i p).extentsCount = map.extentsCount :=
  rfl

@[simp] theorem Extmap.moveTo_extentsNextlblock :
    (map.moveTo i p).extentsNextlblock = map.extentsNextlblock := rfl

end Cursor

/-! ## Maps that hold a list of extents -/

/-- The map was loaded with `extents`; the cursor may be anywhere. -/
structure Extmap.Holds (map : Extmap) (extents : List Segment) : Prop where
  extentsBegin : map.extentsBegin = (mtlExtmapLoad (mapExtents extents)).extentsBegin
  extentsCount : map.extentsCount = (mtlExtmapLoad (mapExtents extents)).extentsCount
  extentsNextlblock :
    map.extentsNextlblock = (mtlExtmapLoad (mapExtents extents)).extentsNextlblock

theorem holds_load (extents : List Segment) :
    (mtlExtmapLoad (mapExtents extents)).Holds extents := ⟨rfl, rfl, rfl⟩

theorem Extmap.Holds.moveTo {map : Extmap} {extents : List Segment} (holds : map.Holds extents)
    (i p : Nat) : (map.moveTo i p).Holds extents :=
  ⟨holds.extentsBegin, holds.extentsCount, holds.extentsNextlblock⟩

theorem Extmap.Holds.seek {map : Extmap} {extents : List Segment} (holds : map.Holds extents)
    (lblock : Nat) : (mtlExtmapSeek map lblock).1.Holds extents := by
  unfold mtlExtmapSeek
  dsimp only
  split
  · exact holds.moveTo _ _
  · exact holds

/-- The loop of `mtl_extmap_load` computes the sums of the counts. -/
theorem lastBlock_mapExtents {extents : List Segment} (bound : total extents < 2 ^ 64) (i : Nat) :
    lastBlock (mapExtents extents) i = total (extents.take i) := by
  have initial : ∀ i, total (extents.take i) ≤ total extents := by
    intro i
    have whole := congrArg total (List.take_append_drop i extents)
    rw [total_append] at whole
    omega
  induction i with
  | zero => rfl
  | succ i ih =>
    have next := initial (i + 1)
    rw [lastBlock, ih]
    cases found : extents[i]? with
    | none =>
      have stop := List.getElem?_eq_none_iff.mp found
      rw [List.take_of_length_le stop, List.take_of_length_le (by omega)]
      simp only [mapExtents, found]
      exact u64_of_lt bound
    | some extent =>
      rw [List.take_add_one, found] at next ⊢
      simp only [Option.toList_some, total_append, total_cons, total_nil, Nat.add_zero] at next ⊢
      simp only [mapExtents, found]
      rw [u64_of_lt (show extent.count < 2 ^ 64 by omega), u64_of_lt (by omega)]

section Walk

variable {map : Extmap} {before rest : List Segment} {s : Segment}

theorem mapExtents_middle : mapExtents (before ++ s :: rest) before.length =
    ⟨u64 s.start, u64 s.count⟩ := by
  simp only [mapExtents, List.getElem?_append_right (Nat.le_refl _), Nat.sub_self,
    List.getElem?_cons_zero]

theorem Extmap.Holds.begins (holds : map.Holds (before ++ s :: rest)) :
    map.extentsBegin before.length = u64 s.start := by
  rw [holds.extentsBegin]
  exact congrArg Segment.start mapExtents_middle

theorem Extmap.Holds.counts (holds : map.Holds (before ++ s :: rest))
    (bound : total (before ++ s :: rest) < 2 ^ 64) :
    map.extentsCount before.length = s.count := by
  rw [holds.extentsCount]
  refine (congrArg Segment.count mapExtents_middle).trans (u64_of_lt ?_)
  simp only [total_append, total_cons] at bound
  omega

/-- `mtl_extmap_seek` finds the extent of a logical block. -/
theorem mtlExtmapSeek_split (holds : map.Holds (before ++ s :: rest))
    (short : (before ++ s :: rest).length ≤ maxExtentsPerFile)
    (bound : total (before ++ s :: rest) < 2 ^ 64) {offset : Nat} (inside : offset < s.count) :
    mtlExtmapSeek map (total before + offset) =
      (map.moveTo before.length (u64 (s.start + offset)), true) := by
  have nextlblock : ∀ i, map.extentsNextlblock i = total ((before ++ s :: rest).take (i + 1)) := by
    intro i
    rw [holds.extentsNextlblock]
    exact lastBlock_mapExtents bound (i + 1)
  have first : mtlExtmapFirstlblock map before.length = total before := by
    unfold mtlExtmapFirstlblock
    rcases Nat.eq_zero_or_pos before.length with zero | positive
    · rw [if_pos zero, List.eq_nil_of_length_eq_zero zero]
      rfl
    · rw [if_neg (by omega), nextlblock, Nat.sub_add_cancel positive, List.take_left]
  have last : map.extentsNextlblock before.length = total before + s.count := by
    rw [nextlblock, List.take_append, List.take_of_length_le (by omega)]
    simp
  have earlier : ∀ j < before.length, map.extentsNextlblock j ≤ total before := by
    intro j below
    rw [nextlblock, List.take_append_of_le_length (by omega)]
    have whole := congrArg total (List.take_append_drop (j + 1) before)
    rw [total_append] at whole
    omega
  have found : (List.range maxExtentsPerFile).find? (fun iExtent =>
      mtlExtmapFirstlblock map iExtent ≤ total before + offset ∧
        total before + offset < map.extentsNextlblock iExtent) = some before.length := by
    rw [List.find?_range_eq_some]
    refine ⟨?_, ?_, ?_⟩
    · rw [first, last]
      simp only [decide_eq_true_eq]
      omega
    · simp only [List.length_append, List.length_cons] at short
      exact List.mem_range.mpr (by omega)
    · intro j below
      have := earlier j below
      simp only [Bool.not_eq_true', decide_eq_false_iff_not]
      omega
  unfold mtlExtmapSeek
  simp only [found, first, holds.begins]
  have sum : u64 (u64 s.start + (total before + offset - total before)) = u64 (s.start + offset) := by
    unfold u64
    omega
  rw [sum]

/-- Inside an extent, and one block behind it, the cursor moves block by block. -/
theorem mtlExtmapNext_iterate (map : Extmap) (i offset : Nat)
    (small : map.extentsBegin i < 2 ^ 64) (bound : map.extentsCount i < 2 ^ 64) {k : Nat}
    (inside : offset + k ≤ map.extentsCount i) :
    mtlExtmapNext^[k] (map.moveTo i (u64 (map.extentsBegin i + offset))) =
      map.moveTo i (u64 (map.extentsBegin i + offset + k)) := by
  induction k with
  | zero => rfl
  | succ k ih =>
    rw [Function.iterate_succ_apply', ih (by omega)]
    have boffset : u64 (u64 (map.extentsBegin i + offset + k) + 2 ^ 64 - map.extentsBegin i) =
        offset + k := by
      unfold u64
      omega
    have pblock : u64 (u64 (map.extentsBegin i + offset + k) + 1) =
        u64 (map.extentsBegin i + offset + (k + 1)) := by
      unfold u64
      omega
    unfold mtlExtmapNext
    simp only [Extmap.moveTo_currentExtent, Extmap.moveTo_currentPblock,
      Extmap.moveTo_extentsBegin, Extmap.moveTo_extentsCount, Extmap.moveTo_moveTo, boffset, pblock]
    rw [if_pos (by omega)]

/-- From the block behind an extent the cursor enters the following extent. -/
theorem mtlExtmapNext_leave (map : Extmap) (i : Nat) (small : map.extentsBegin i < 2 ^ 64)
    (bound : map.extentsCount i < 2 ^ 64) :
    mtlExtmapNext (map.moveTo i (u64 (map.extentsBegin i + map.extentsCount i))) =
      map.moveTo ((i + 1) % maxExtentsPerFile)
        (map.extentsBegin ((i + 1) % maxExtentsPerFile)) := by
  have boffset : u64 (u64 (map.extentsBegin i + map.extentsCount i) + 2 ^ 64 -
      map.extentsBegin i) = map.extentsCount i := by
    unfold u64
    omega
  unfold mtlExtmapNext
  simp only [Extmap.moveTo_currentExtent, Extmap.moveTo_currentPblock,
    Extmap.moveTo_extentsBegin, Extmap.moveTo_extentsCount, Extmap.moveTo_moveTo, boffset]
  rw [if_neg (Nat.lt_irrefl _)]

end Walk

/-! ## Walks -/

/-- The blocks from `lblock` to `lblock + n` stay in the extent of the first one, or
only the last one lies outside and physically continues the extent. -/
def StaysInExtent : List Segment → Nat → Nat → Prop
  | [], _, _ => False
  | s :: rest, lblock, n =>
    if lblock < s.count then
      lblock + n < s.count ∨ lblock + n = s.count ∧ locate rest 0 = some (s.start + s.count)
    else StaysInExtent rest (lblock - s.count) n

instance StaysInExtent.decidable : ∀ extents lblock n, Decidable (StaysInExtent extents lblock n)
  | [], _, _ => inferInstanceAs (Decidable False)
  | s :: rest, lblock, n =>
    have := StaysInExtent.decidable rest (lblock - s.count) n
    inferInstanceAs (Decidable (if lblock < s.count then
      lblock + n < s.count ∨ lblock + n = s.count ∧ locate rest 0 = some (s.start + s.count)
      else StaysInExtent rest (lblock - s.count) n))

theorem staysInExtent_split {before rest : List Segment} {s : Segment} {offset n : Nat}
    (inside : offset < s.count) :
    StaysInExtent (before ++ s :: rest) (total before + offset) n ↔
      offset + n < s.count ∨
        offset + n = s.count ∧ locate rest 0 = some (s.start + s.count) := by
  induction before with
  | nil => simp only [List.nil_append, total_nil, Nat.zero_add, StaysInExtent, if_pos inside]
  | cons t before ih =>
    have beyond : ¬ total (t :: before) + offset < t.count := by
      rw [total_cons]
      omega
    have place : total (t :: before) + offset - t.count = total before + offset := by
      rw [total_cons]
      omega
    rw [List.cons_append, StaysInExtent, if_neg beyond, place]
    exact ih

theorem StaysInExtent.append {extents : List Segment} {lblock n : Nat}
    (stays : StaysInExtent extents lblock n) (below : lblock < total extents)
    (more : List Segment) : StaysInExtent (extents ++ more) lblock n := by
  obtain ⟨before, s, rest, offset, rfl, rfl, inside⟩ := exists_split below
  rw [staysInExtent_split inside] at stays
  rw [List.append_assoc, List.cons_append, staysInExtent_split inside]
  rcases stays with within | ⟨ends, continues⟩
  · exact Or.inl within
  · exact Or.inr ⟨ends, (locate_append_left (lt_total continues)).trans continues⟩

section Walks

variable {map : Extmap} {before rest : List Segment} {s : Segment}

/-- The cursor after `k` moves from block `offset` of the extent `s`. -/
theorem walk_inside (holds : map.Holds (before ++ s :: rest))
    (short : (before ++ s :: rest).length ≤ maxExtentsPerFile)
    (bound : total (before ++ s :: rest) < 2 ^ 64) {offset k : Nat} (inside : offset < s.count)
    (reach : offset + k ≤ s.count) :
    mtlExtmapNext^[k] (mtlExtmapSeek map (total before + offset)).1 =
      map.moveTo before.length (u64 (s.start + offset + k)) := by
  have begins := holds.begins
  have counts := holds.counts bound
  have same : ∀ x, u64 (s.start + x) = u64 (map.extentsBegin before.length + x) := by
    intro x
    rw [begins]
    unfold u64
    omega
  rw [mtlExtmapSeek_split holds short bound inside, same, Nat.add_assoc, same, ← Nat.add_assoc]
  apply mtlExtmapNext_iterate map
  · rw [begins]
    exact u64_lt _
  · simp only [total_append, total_cons] at bound
    omega
  · omega

/-- One move more and the cursor is in the next extent of the map. -/
theorem walk_leave (holds : map.Holds (before ++ s :: rest))
    (short : (before ++ s :: rest).length ≤ maxExtentsPerFile)
    (bound : total (before ++ s :: rest) < 2 ^ 64) {offset : Nat} (inside : offset < s.count) :
    mtlExtmapNext^[s.count - offset + 1] (mtlExtmapSeek map (total before + offset)).1 =
      map.moveTo ((before.length + 1) % maxExtentsPerFile)
        (map.extentsBegin ((before.length + 1) % maxExtentsPerFile)) := by
  have begins := holds.begins
  have counts := holds.counts bound
  have last : u64 (s.start + offset + (s.count - offset)) =
      u64 (map.extentsBegin before.length + map.extentsCount before.length) := by
    rw [begins, counts]
    unfold u64
    omega
  rw [Function.iterate_succ_apply', walk_inside holds short bound inside (by omega), last]
  apply mtlExtmapNext_leave map
  · rw [begins]
    exact u64_lt _
  · simp only [total_append, total_cons] at bound
    omega

end Walks

section Layout

variable {map : Extmap} {extents : List Segment} {lblock n : Nat}

theorem mtlExtmapSeek_locate (holds : map.Holds extents)
    (short : extents.length ≤ maxExtentsPerFile) (bound : total extents < 2 ^ 64) {pblock : Nat}
    (located : locate extents lblock = some pblock) :
    mtlExtmapPblock (mtlExtmapSeek map lblock).1 = u64 pblock := by
  obtain ⟨before, s, rest, offset, rfl, rfl, inside⟩ := exists_split (lt_total located)
  rw [locate_split inside] at located
  cases located
  rw [mtlExtmapSeek_split holds short bound inside]
  rfl

/-- A walk that stays in its extent is on the right block after every move.  The
layout may go on behind the extents of the map. -/
theorem walk_of_stays (holds : map.Holds extents) (short : extents.length ≤ maxExtentsPerFile)
    (bound : total extents < 2 ^ 64) (more : List Segment) (below : lblock < total extents)
    (stays : StaysInExtent (extents ++ more) lblock n) {k : Nat} (reach : k ≤ n) :
    ∃ pblock, locate (extents ++ more) (lblock + k) = some pblock ∧
      mtlExtmapPblock (mtlExtmapNext^[k] (mtlExtmapSeek map lblock).1) = u64 pblock := by
  obtain ⟨before, s, rest, offset, rfl, rfl, inside⟩ := exists_split below
  rw [List.append_assoc, List.cons_append] at stays ⊢
  rw [staysInExtent_split inside] at stays
  rw [walk_inside holds short bound inside (by omega), Nat.add_assoc, Nat.add_assoc]
  refine ⟨s.start + (offset + k), ?_, rfl⟩
  rcases Nat.lt_or_ge (offset + k) s.count with within | behind
  · exact locate_split within
  · obtain ⟨last, continues⟩ : offset + k = s.count ∧
        locate (rest ++ more) 0 = some (s.start + s.count) := by
      rcases stays with stays | ⟨ends, continues⟩
      · omega
      · exact ⟨by omega, continues⟩
    rw [last, ← continues]
    exact locate_behind (i := 0)

/-- Blocks of a device of less than `2 ^ 64` bytes. -/
def Addressable (extents : List Segment) : Prop :=
  ∀ s ∈ extents, s.start + s.count < 2 ^ 46

theorem Addressable.locate_lt (addressable : Addressable extents) {pblock : Nat}
    (located : locate extents lblock = some pblock) : pblock < 2 ^ 46 := by
  obtain ⟨s, member, low, high⟩ := locate_mem located
  have := addressable s member
  omega

/-- A walk over disjoint extents that is right at every move stays in its extent. -/
theorem stays_of_walk (holds : map.Holds extents) (short : extents.length ≤ maxExtentsPerFile)
    (bound : total extents < 2 ^ 64) (positive : ∀ s ∈ extents, 0 < s.count)
    (disjoint : extents.Pairwise Segment.Disjoint) (addressable : Addressable extents)
    (below : lblock + n < total extents)
    (agree : ∀ k ≤ n, ∀ pblock, locate extents (lblock + k) = some pblock →
      mtlExtmapPblock (mtlExtmapNext^[k] (mtlExtmapSeek map lblock).1) % 2 ^ 46 = pblock) :
    StaysInExtent extents lblock n := by
  have inLayout : lblock < total extents := by omega
  obtain ⟨before, s, rest, offset, rfl, rfl, inside⟩ := exists_split inLayout
  rw [staysInExtent_split inside]
  rcases Nat.lt_or_ge (offset + n) s.count with within | behind
  · exact Or.inl within
  · right
    have device := addressable s (by simp)
    obtain ⟨t, rest, rfl⟩ : ∃ t rest', rest = t :: rest' := by
      cases rest with
      | nil =>
        simp only [total_append, total_cons, total_nil] at below
        omega
      | cons t rest => exact ⟨t, rest, rfl⟩
    have tPositive := positive t (by simp)
    have tDevice := addressable t (by simp)
    have first : locate (t :: rest) 0 = some t.start := by rw [locate, if_pos tPositive]; rfl
    -- the block behind `s` has to be the first one of `t`
    have continues : t.start = s.start + s.count := by
      have place : total before + offset + (s.count - offset) = total before + s.count + 0 := by
        omega
      have here := agree (s.count - offset) (by omega) t.start
        (by rw [place, locate_behind]; exact first)
      rw [walk_inside holds short bound inside (by omega)] at here
      simp only [mtlExtmapPblock, Extmap.moveTo_currentPblock, u64] at here
      omega
    refine ⟨?_, by rw [first, continues]⟩
    -- one block more would be the first one of `t` again
    rcases Nat.lt_or_ge s.count (offset + n) with further | ends
    · exfalso
      have place : total before + offset + (s.count - offset + 1) =
          total before + s.count + 1 := by omega
      simp only [total_append, total_cons] at below
      obtain ⟨pblock, located⟩ := exists_locate (l := t :: rest) (i := 1)
        (by rw [total_cons]; omega)
      have there := agree (s.count - offset + 1) (by omega) pblock
        (by rw [place, locate_behind]; exact located)
      have index : (before.length + 1) % maxExtentsPerFile = (before ++ [s]).length := by
        simp only [List.length_append, List.length_cons, List.length_nil] at short ⊢
        exact Nat.mod_eq_of_lt (by omega)
      have holdsT : map.Holds ((before ++ [s]) ++ t :: rest) := by
        rw [List.append_assoc]
        exact holds
      have begins := holdsT.begins
      rw [walk_leave holds short bound inside, index, begins] at there
      simp only [mtlExtmapPblock, Extmap.moveTo_currentPblock, u64] at there
      have same : pblock = t.start := by omega
      rw [same] at located
      have tail := (List.pairwise_cons.mp (List.pairwise_append.mp disjoint).2.1).2
      have := locate_inj tail first located
      omega
    · omega

end Layout

end MetalFs.Fpga
