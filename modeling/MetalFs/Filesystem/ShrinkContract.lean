import MetalFs.Filesystem.MetalShrink
import MetalFs.Lib.ByteWords

/-!
# The contract of a shrinking truncation

`mtlTruncateWith step` is `mtl_truncate` with the functions of the allocator as a parameter, so
that its calls can be told from their effects.  `CutsAtNewEnd` says which calls a truncation to
`offset` bytes makes and what it leaves of the file, whatever the allocator does.
`cutsAtNewEnd_iff` is the condition under which it does: the ends of the extents are computed in
64 bits, and the last one wraps around if the blocks of the file take `2 ^ 64` bytes.
-/

namespace MetalFs

open Segments

/-! ## Calls of the allocator -/

/-- The loop of `mtl_truncate`, with `step` for the functions of the allocator. -/
def truncateLoopWith (step : Allocator → AllocOp → Option Allocator) (metadata : StorageMetadata)
    (inodeId offset : Nat) : List FileExtent → Nat → Nat → Db → Option Db
  | [], _, _, db => some db
  | extent :: extents, i, previousExtentEnd, db => do
    let extentEnd := u64 (previousExtentEnd + extent.length * metadata.blockSize)
    let db ←
      if offset < previousExtentEnd then do
        let allocator ← step db.allocator (.free extent.offset)
        some { db with allocator }
      else if offset < extentEnd then
        let newExtentLengthBlocks := blocksFor metadata.blockSize (offset - previousExtentEnd)
        if newExtentLengthBlocks ≠ 0 then do
          let allocator ← step db.allocator (.truncate extent.offset newExtentLengthBlocks)
          mtlTruncateFileExtents { db with allocator } inodeId offset (i + 1)
            (some newExtentLengthBlocks)
        else do
          let allocator ← step db.allocator (.free extent.offset)
          mtlTruncateFileExtents { db with allocator } inodeId offset i none
      else some db
    truncateLoopWith step metadata inodeId offset extents (i + 1) extentEnd db

/-- `mtl_truncate`, with `step` for the functions of the allocator it calls itself. -/
def mtlTruncateWith (step : Allocator → AllocOp → Option Allocator) (metadata : StorageMetadata)
    (db : Db) (inodeId offset : Nat) : Option Db := do
  let (inode, extents) ← mtlLoadFile db inodeId
  if inode.length ≤ offset then mtlExpandInode metadata db inodeId extents offset
  else truncateLoopWith step metadata inodeId offset extents 0 0 db

theorem truncateLoop_eq_with (metadata : StorageMetadata) (inodeId offset : Nat)
    (l : List FileExtent) (i start : Nat) (db : Db) :
    truncateLoop metadata inodeId offset l i start db =
      truncateLoopWith AllocOp.step metadata inodeId offset l i start db := by
  induction l generalizing i start db with
  | nil => rfl
  | cons e l ih =>
    simp only [truncateLoop, truncateLoopWith, ih]
    rfl

theorem mtlTruncate_eq_with (metadata : StorageMetadata) (db : Db) (inodeId offset : Nat) :
    mtlTruncate metadata db inodeId offset =
      mtlTruncateWith AllocOp.step metadata db inodeId offset := by
  simp only [mtlTruncate, mtlTruncateWith, truncateLoop_eq_with]

/-! ## The contract -/

/-- The extents with the number of blocks in front of each. -/
def withStart : Nat → List FileExtent → List (Nat × FileExtent)
  | _, [] => []
  | start, e :: l => (start, e) :: withStart (start + e.length) l

/-- How many blocks of the extent belong to the first `kept` blocks of the file. -/
def keptBlocks (kept : Nat) (p : Nat × FileExtent) : Nat := min p.2.length (kept - p.1)

/-- The extent contains the new last block and the new end. -/
def HoldsEnd (blockSize offset : Nat) (p : Nat × FileExtent) : Prop :=
  p.1 < blocksFor blockSize offset ∧ blocksFor blockSize offset ≤ p.1 + p.2.length ∧
    p.1 * blockSize ≤ offset ∧ offset < (p.1 + p.2.length) * blockSize

instance (blockSize offset : Nat) (p : Nat × FileExtent) : Decidable (HoldsEnd blockSize offset p) :=
  inferInstanceAs (Decidable (_ ∧ _))

/-- The offset a call frees. -/
def AllocOp.freedOffset : AllocOp → Option Nat
  | free offset => some offset
  | _ => none

/-- The offset and the length of a call of `mtl_truncate_extent`. -/
def AllocOp.truncatedTo : AllocOp → Option (Nat × Nat)
  | truncate offset len => some (offset, len)
  | _ => none

/-- The calls free each extent of which no block is kept, and cut the one that contains the new
last block and the new end. -/
structure CallsCut (blockSize offset : Nat) (l : List FileExtent) (calls : List AllocOp) :
    Prop where
  freed : calls.filterMap AllocOp.freedOffset =
    ((withStart 0 l).filter fun p => keptBlocks (blocksFor blockSize offset) p = 0).map
      fun p => p.2.offset
  truncated : calls.filterMap AllocOp.truncatedTo =
    ((withStart 0 l).filter fun p => HoldsEnd blockSize offset p).map
      fun p => (p.2.offset, keptBlocks (blocksFor blockSize offset) p)
  once : (calls.filterMap AllocOp.truncatedTo).length ≤ 1

/-- The databases once the file has `offset` bytes in the extents `l'`. -/
def shrunkDb (db : Db) (id offset : Nat) (inode : Inode) (l' : List FileExtent) (a : Allocator) :
    Db :=
  mtlPutInode { db with allocator := a } id { inode with length := offset } (extentBytes l')

/-- What a truncation of the file to `offset` bytes is to do.  The extents are allocated in a
partition of the device, so that the calls return. -/
def CutsAtNewEnd (metadata : StorageMetadata) (db : Db) (id offset : Nat) (inode : Inode)
    (l : List FileExtent) : Prop :=
  ∃ calls l',
    (∀ step, mtlTruncateWith step metadata db id offset =
      (Runs.run step db.allocator calls).map (shrunkDb db id offset inode l')) ∧
    mtlTruncate metadata db id offset =
      (Runs.run AllocOp.step db.allocator calls).map (shrunkDb db id offset inode l') ∧
    CallsCut metadata.blockSize offset l calls ∧
    (∀ a, mtlLoadFile (shrunkDb db id offset inode l' a) id =
      some ({ inode with length := offset }, l')) ∧
    IsPrefix (blockSegments l') (blockSegments l) ∧
    blockCount l' = blocksFor metadata.blockSize offset ∧
    ∀ {N}, db.allocator.Inv N → N < 2 ^ 64 → (l.map FileExtent.offset).Nodup →
      (∀ e ∈ l, db.allocator.Allocated e.offset e.length) →
        ∃ a, Runs.run AllocOp.step db.allocator calls = some a

/-- The blocks of the file, or those in front of its last extent, reach beyond `offset` without
wrapping around. -/
def EndReached (blockSize offset : Nat) (l : List FileExtent) : Prop :=
  offset < u64 (blockCount l * blockSize) ∨ offset < blockCount l.dropLast * blockSize

variable {metadata : StorageMetadata} {id offset blockSize : Nat} {db : Db} {inode : Inode}
  {before l rest after : List FileExtent} {pivot : FileExtent}
  {step : Allocator → AllocOp → Option Allocator}

/-! ## The walk -/

theorem truncateLoopWith_keep (i : Nat) {start : Nat}
    (device : start + blockCount before * metadata.blockSize < 2 ^ 64)
    (kept : start + blockCount before * metadata.blockSize ≤ offset) :
    truncateLoopWith step metadata id offset (before ++ rest) i start db =
      truncateLoopWith step metadata id offset rest (i + before.length)
        (start + blockCount before * metadata.blockSize) db := by
  induction before generalizing i start with
  | nil => simp [blockCount]
  | cons e before ih =>
    rw [blockCount_cons, Nat.add_mul] at device kept ⊢
    have endEq : u64 (start + e.length * metadata.blockSize) =
        start + e.length * metadata.blockSize := u64_of_lt (by omega)
    have before' : ¬ offset < start := by omega
    have notHere : ¬ offset < start + e.length * metadata.blockSize := by omega
    have walk := @ih (i + 1) (start + e.length * metadata.blockSize) (by omega) (by omega)
    simp only [List.cons_append, truncateLoopWith, endEq, if_neg before', if_neg notHere,
      Option.bind_eq_bind, Option.bind_some, walk, List.length_cons]
    congr 1
    · omega
    · omega

theorem truncateLoopWith_free (i : Nat) {start : Nat}
    (device : start + blockCount rest.dropLast * metadata.blockSize < 2 ^ 64)
    (behind : offset < start) :
    truncateLoopWith step metadata id offset rest i start db =
      (Runs.run step db.allocator (rest.map fun e => .free e.offset)).map
        fun a => { db with allocator := a } := by
  induction rest generalizing i start db with
  | nil => rfl
  | cons e rest ih =>
    simp only [truncateLoopWith, if_pos behind, List.map_cons, Runs.run, Option.bind_eq_bind,
      Option.map_bind, Option.bind_some, Function.comp_def]
    cases freed : step db.allocator (.free e.offset) with
    | none => rfl
    | some a =>
      simp only [Option.bind_some]
      cases rest with
      | nil => rfl
      | cons e' rest =>
        rw [List.dropLast_cons_cons, blockCount_cons, Nat.add_mul] at device
        have endEq : u64 (start + e.length * metadata.blockSize) =
            start + e.length * metadata.blockSize := u64_of_lt (by omega)
        rw [endEq]
        exact ih (i + 1) (by omega) (by omega)

/-- The call for the extent that contains the new end, of which `n` blocks are kept. -/
def pivotCall (pivot : FileExtent) (n : Nat) : AllocOp :=
  if n ≠ 0 then .truncate pivot.offset n else .free pivot.offset

/-- What is left of the extent that contains the new end. -/
def pivotRest (pivot : FileExtent) (n : Nat) : List FileExtent :=
  if n ≠ 0 then [⟨pivot.offset, n⟩] else []

theorem truncateLoopWith_pivot
    (loaded : mtlLoadFile db id = some (inode, before ++ pivot :: after))
    (device : blockCount (before ++ pivot :: after).dropLast * metadata.blockSize < 2 ^ 64)
    (low : blockCount before * metadata.blockSize ≤ offset)
    (high : offset < u64 ((blockCount before + pivot.length) * metadata.blockSize)) {n : Nat}
    (kept : n = blocksFor metadata.blockSize (offset - blockCount before * metadata.blockSize)) :
    truncateLoopWith step metadata id offset (pivot :: after) before.length
        (blockCount before * metadata.blockSize) db =
      (Runs.run step db.allocator (pivotCall pivot n :: after.map fun e => .free e.offset)).map
        (shrunkDb db id offset inode (before ++ pivotRest pivot n)) := by
  have notBehind : ¬ offset < blockCount before * metadata.blockSize := by omega
  rw [Nat.add_mul] at high
  have free : ∀ db', truncateLoopWith step metadata id offset after (before.length + 1)
      (u64 (blockCount before * metadata.blockSize + pivot.length * metadata.blockSize)) db' =
        (Runs.run step db'.allocator (after.map fun e => .free e.offset)).map
          fun a => { db' with allocator := a } := by
    intro db'
    refine truncateLoopWith_free _ ?_ high
    rcases after with _ | ⟨e, after⟩
    · have small := Nat.mod_lt
        (blockCount before * metadata.blockSize + pivot.length * metadata.blockSize)
        (show 0 < 2 ^ 64 by decide)
      simpa [blockCount, u64] using small
    · have less := Nat.mod_le
        (blockCount before * metadata.blockSize + pivot.length * metadata.blockSize) (2 ^ 64)
      rw [List.dropLast_append_of_ne_nil (by simp), List.dropLast_cons_cons, blockCount_append,
        blockCount_cons, Nat.add_mul, Nat.add_mul] at device
      change _ % 2 ^ 64 + _ < 2 ^ 64
      omega
  have loaded' : ∀ a, mtlLoadFile { db with allocator := a } id =
      some (inode, before ++ pivot :: after) := fun _ => loaded
  rw [truncateLoopWith, if_neg notBehind, if_pos high, ← kept]
  by_cases nonzero : n ≠ 0
  · simp only [if_pos nonzero, pivotCall, pivotRest, Runs.run,
      Option.bind_eq_bind, Option.map_bind, Function.comp_def, free]
    congr 1
    funext a
    rw [mtlTruncateFileExtents_cut (loaded' a), Option.bind_some]
    rfl
  · simp only [if_neg nonzero, pivotCall, pivotRest, Runs.run, List.append_nil,
      Option.bind_eq_bind, Option.map_bind, Function.comp_def, free]
    congr 1
    funext a
    rw [mtlTruncateFileExtents_drop (loaded' a), Option.bind_some]
    rfl

/-! ## Which calls these are -/

theorem withStart_append (start : Nat) (l r : List FileExtent) :
    withStart start (l ++ r) = withStart start l ++ withStart (start + blockCount l) r := by
  induction l generalizing start with
  | nil => rfl
  | cons e l ih =>
    rw [List.cons_append, withStart, withStart, ih, blockCount_cons, Nat.add_assoc,
      List.cons_append]

theorem mem_withStart {start : Nat} {p : Nat × FileExtent} (member : p ∈ withStart start l) :
    p.2 ∈ l ∧ start ≤ p.1 ∧ p.1 + p.2.length ≤ start + blockCount l := by
  induction l generalizing start with
  | nil => cases member
  | cons e l ih =>
    rw [blockCount_cons]
    rcases List.mem_cons.mp member with rfl | later
    · exact ⟨List.mem_cons_self, le_refl _, by dsimp only; omega⟩
    · obtain ⟨inList, low, high⟩ := ih later
      exact ⟨List.mem_cons_of_mem _ inList, by omega, by omega⟩

theorem map_withStart (start : Nat) (l : List FileExtent) :
    (withStart start l).map (fun p => p.2.offset) = l.map FileExtent.offset := by
  induction l generalizing start with
  | nil => rfl
  | cons e l ih => rw [withStart, List.map_cons, ih, List.map_cons]

/-- The kept extents are neither freed nor cut. -/
theorem kept_before (positive : 0 < blockSize) (pos : ∀ e ∈ before, 0 < e.length)
    (low : blockCount before * blockSize ≤ offset) {p : Nat × FileExtent}
    (member : p ∈ withStart 0 before) :
    keptBlocks (blocksFor blockSize offset) p ≠ 0 ∧ ¬ HoldsEnd blockSize offset p := by
  obtain ⟨inList, -, high⟩ := mem_withStart member
  have nonempty := pos _ inList
  have inside := Nat.mul_le_mul_right blockSize high
  rw [Nat.zero_add] at inside
  have fewer : p.1 < blocksFor blockSize offset := by
    by_contra more
    have short := (blocksFor_le_iff positive).mp (Nat.not_lt.mp more)
    have less := Nat.mul_lt_mul_of_pos_right (show p.1 < p.1 + p.2.length by omega) positive
    omega
  constructor
  · unfold keptBlocks
    omega
  · rintro ⟨-, -, -, ends⟩
    omega

/-- The extents behind the new end keep no block. -/
theorem kept_after (positive : 0 < blockSize) {start : Nat} (behind : offset ≤ start * blockSize)
    {p : Nat × FileExtent} (member : p ∈ withStart start after) :
    keptBlocks (blocksFor blockSize offset) p = 0 ∧ ¬ HoldsEnd blockSize offset p := by
  obtain ⟨-, low, -⟩ := mem_withStart member
  have all := (blocksFor_le_iff positive).mpr behind
  constructor
  · unfold keptBlocks
    omega
  · rintro ⟨first, -⟩
    omega

theorem withStart_pivot : withStart 0 (before ++ pivot :: after) = withStart 0 before ++
    (blockCount before, pivot) :: withStart (blockCount before + pivot.length) after := by
  rw [withStart_append, withStart, Nat.zero_add]

/-- Of the pivot and the extents behind it, the contract frees those that keep no block. -/
theorem filter_kept_pivot (after : List FileExtent) (positive : 0 < blockSize)
    (pos : ∀ e ∈ before, 0 < e.length)
    (low : blockCount before * blockSize ≤ offset)
    (behind : offset ≤ (blockCount before + pivot.length) * blockSize) :
    (withStart 0 (before ++ pivot :: after)).filter
        (fun p => keptBlocks (blocksFor blockSize offset) p = 0) =
      [(blockCount before, pivot)].filter
          (fun p => keptBlocks (blocksFor blockSize offset) p = 0) ++
        withStart (blockCount before + pivot.length) after := by
  have none : (withStart 0 before).filter
      (fun p => keptBlocks (blocksFor blockSize offset) p = 0) = [] := by
    rw [List.filter_eq_nil_iff]
    intro p member
    simpa using (kept_before positive pos low member).1
  have all : (withStart (blockCount before + pivot.length) after).filter
      (fun p => keptBlocks (blocksFor blockSize offset) p = 0) =
        withStart (blockCount before + pivot.length) after := by
    rw [List.filter_eq_self]
    intro p member
    simpa using (kept_after positive behind member).1
  rw [withStart_pivot, List.filter_append, none, List.nil_append, ← List.singleton_append,
    List.filter_append, all]

/-- Only the pivot may hold the new end. -/
theorem filter_holdsEnd_pivot (after : List FileExtent) (positive : 0 < blockSize)
    (pos : ∀ e ∈ before, 0 < e.length)
    (low : blockCount before * blockSize ≤ offset)
    (behind : offset ≤ (blockCount before + pivot.length) * blockSize) :
    (withStart 0 (before ++ pivot :: after)).filter (fun p => HoldsEnd blockSize offset p) =
      [(blockCount before, pivot)].filter (fun p => HoldsEnd blockSize offset p) := by
  have front : (withStart 0 before).filter (fun p => HoldsEnd blockSize offset p) = [] := by
    rw [List.filter_eq_nil_iff]
    intro p member
    simpa using (kept_before positive pos low member).2
  have back : (withStart (blockCount before + pivot.length) after).filter
      (fun p => HoldsEnd blockSize offset p) = [] := by
    rw [List.filter_eq_nil_iff]
    intro p member
    simpa using (kept_after positive behind member).2
  rw [withStart_pivot, List.filter_append, front, List.nil_append, ← List.singleton_append,
    List.filter_append, back, List.append_nil]

theorem freedOffset_frees (l : List FileExtent) :
    (l.map fun e => AllocOp.free e.offset).filterMap AllocOp.freedOffset =
      l.map FileExtent.offset := by
  have same : (AllocOp.freedOffset ∘ fun e : FileExtent => AllocOp.free e.offset) =
      some ∘ FileExtent.offset := rfl
  rw [List.filterMap_map, same, List.filterMap_eq_map]

theorem truncatedTo_frees (l : List FileExtent) :
    (l.map fun e => AllocOp.free e.offset).filterMap AllocOp.truncatedTo = [] := by
  rw [List.filterMap_map]
  exact List.filterMap_eq_nil_iff.mpr fun _ _ => rfl

theorem callsCut_of_pivot (positive : 0 < blockSize)
    (pos : ∀ e ∈ before ++ pivot :: after, 0 < e.length)
    (low : blockCount before * blockSize ≤ offset)
    (high : offset < (blockCount before + pivot.length) * blockSize) {n : Nat}
    (kept : n = blocksFor blockSize (offset - blockCount before * blockSize)) :
    CallsCut blockSize offset (before ++ pivot :: after)
      (pivotCall pivot n :: after.map fun e => .free e.offset) := by
  have count : blocksFor blockSize offset = blockCount before + n := by
    rw [kept, ← blocksFor_add positive, Nat.add_sub_cancel' low]
  have shorter : blockCount before + n ≤ blockCount before + pivot.length := by
    rw [← count, blocksFor_le_iff positive]
    omega
  have posPivot := pos pivot (by simp)
  have posBefore : ∀ e ∈ before, 0 < e.length := fun e member => pos e (by simp [member])
  have pivotKept : keptBlocks (blocksFor blockSize offset) (blockCount before, pivot) = n := by
    simp only [keptBlocks, count]
    omega
  have pivotEnd : HoldsEnd blockSize offset (blockCount before, pivot) ↔ n ≠ 0 := by
    simp only [HoldsEnd, count]
    omega
  have freed := filter_kept_pivot after positive posBefore low high.le
  have cut := filter_holdsEnd_pivot after positive posBefore low high.le
  by_cases zero : n = 0
  · have notHere : ¬ HoldsEnd blockSize offset (blockCount before, pivot) := by
      rw [pivotEnd]
      exact not_not.mpr zero
    have call : pivotCall pivot n = .free pivot.offset := if_neg (not_not.mpr zero)
    have noCut : (pivotCall pivot n :: after.map fun e => .free e.offset).filterMap
        AllocOp.truncatedTo = [] := by
      rw [call]
      exact truncatedTo_frees after
    refine ⟨?_, ?_, ?_⟩
    · rw [call, List.filterMap_cons_some (show (AllocOp.free pivot.offset).freedOffset =
        some pivot.offset from rfl), freedOffset_frees, freed,
        List.filter_cons_of_pos (by simpa [pivotKept] using zero), List.filter_nil,
        List.singleton_append, List.map_cons, map_withStart]
    · rw [noCut, cut, List.filter_cons_of_neg (by simpa using notHere)]
      rfl
    · rw [noCut]
      exact Nat.zero_le 1
  · have here : HoldsEnd blockSize offset (blockCount before, pivot) := pivotEnd.mpr zero
    have call : pivotCall pivot n = .truncate pivot.offset n := if_pos zero
    have oneCut : (pivotCall pivot n :: after.map fun e => .free e.offset).filterMap
        AllocOp.truncatedTo = [(pivot.offset, n)] := by
      rw [call, List.filterMap_cons_some (show (AllocOp.truncate pivot.offset n).truncatedTo =
        some (pivot.offset, n) from rfl), truncatedTo_frees]
    refine ⟨?_, ?_, ?_⟩
    · rw [call, List.filterMap_cons_none (show (AllocOp.truncate pivot.offset n).freedOffset =
        none from rfl), freedOffset_frees, freed,
        List.filter_cons_of_neg (by simpa [pivotKept] using zero), List.filter_nil,
        List.nil_append, map_withStart]
    · rw [oneCut, cut, List.filter_cons_of_pos (by simpa using here), List.filter_nil,
        List.map_singleton, pivotKept]
    · rw [oneCut]
      exact Nat.le_refl 1

/-- What is left of the extents is the beginning of the file. -/
theorem pivotRest_isPrefix {n : Nat} (shorter : n ≤ pivot.length) :
    IsPrefix (blockSegments (before ++ pivotRest pivot n))
      (blockSegments (before ++ pivot :: after)) := by
  have split : before ++ pivot :: after = (before ++ [pivot]) ++ after := by simp
  by_cases nonzero : n ≠ 0
  · have whole : pivot = ⟨pivot.offset, n + (pivot.length - n)⟩ := by
      rw [Nat.add_sub_cancel' shorter]
    rw [split, blockSegments_append _ after, pivotRest, if_pos nonzero, blockSegments_append,
      blockSegments_append]
    refine IsPrefix.trans ?_ (.append _ _)
    rw [whole]
    exact .grow_last _ _ _ _
  · rw [pivotRest, if_neg nonzero, List.append_nil, blockSegments_append]
    exact .append _ _

theorem blockCount_pivotRest (before : List FileExtent) (pivot : FileExtent) (n : Nat) :
    blockCount (before ++ pivotRest pivot n) = blockCount before + n := by
  rw [blockCount_append]
  by_cases nonzero : n ≠ 0
  · rw [pivotRest, if_pos nonzero, blockCount_singleton]
  · rw [pivotRest, if_neg nonzero]
    simp [blockCount, not_not.mp nonzero]

/-- What is loaded consists of 64-bit values. -/
theorem extentsOfBytes_fits (n : Nat) (data : List Byte) : ∀ e ∈ extentsOfBytes n data, e.Fits := by
  have small : ∀ bytes : List Byte, ofLeBytes (bytes.take 8) < 2 ^ 64 := by
    intro bytes
    calc ofLeBytes (bytes.take 8) < 256 ^ (bytes.take 8).length := ofLeBytes_lt _
      _ ≤ 256 ^ 8 := Nat.pow_le_pow_right (by decide) (by simp)
      _ = 2 ^ 64 := by decide
  induction n generalizing data with
  | zero =>
    intro e member
    cases member
  | succ n ih =>
    intro e member
    rcases List.mem_cons.mp member with rfl | later
    · exact ⟨small _, small _⟩
    · exact ih _ e later

theorem mtlLoadFile_fits (loaded : mtlLoadFile db id = some (inode, l)) : ∀ e ∈ l, e.Fits := by
  obtain ⟨⟨found, data⟩, -, same⟩ := Option.bind_eq_some_iff.mp loaded
  cases same
  exact extentsOfBytes_fits _ data

theorem pivotRest_fits (fits : ∀ e ∈ before ++ pivot :: after, e.Fits) {n : Nat}
    (shorter : n ≤ pivot.length) : ∀ e ∈ before ++ pivotRest pivot n, e.Fits := by
  intro e member
  rcases List.mem_append.mp member with old | new
  · exact fits e (List.mem_append_left _ old)
  · obtain ⟨offset, length⟩ := fits pivot (by simp)
    unfold pivotRest at new
    split at new
    · rw [List.mem_singleton.mp new]
      exact ⟨offset, by dsimp only; omega⟩
    · cases new

/-- The end of the extent that contains the new end is computed right, if it is the last one and
does not wrap around or if another one follows. -/
theorem pivot_reached (device : blockCount (before ++ pivot :: after).dropLast * blockSize < 2 ^ 64)
    (low : blockCount before * blockSize ≤ offset)
    (high : offset < (blockCount before + pivot.length) * blockSize)
    (reached : EndReached blockSize offset (before ++ pivot :: after)) :
    offset < u64 ((blockCount before + pivot.length) * blockSize) := by
  cases after with
  | nil =>
    rw [EndReached, List.dropLast_concat, blockCount_append, blockCount_singleton] at reached
    rcases reached with last | front
    · exact last
    · omega
  | cons e after =>
    rw [List.dropLast_append_of_ne_nil (by simp), List.dropLast_cons_cons, blockCount_append,
      blockCount_cons, ← Nat.add_assoc, Nat.add_mul] at device
    rw [u64_of_lt (by omega)]
    exact high

/-! ## The calls return -/

section Returns

variable {a : Allocator} {o : Nat} {e x : Extent}

theorem mergeFollowing_kept (n : Nat) (found : a.extents.get o = some x)
    (notFree : x.status ≠ .free) :
    (mergeFollowing a offset n).2.extents.get o = some x := by
  unfold mergeFollowing
  cases step : a.extents.next offsetBytes offset with
  | none => exact found
  | some entry =>
    obtain ⟨nextOffset, next⟩ := entry
    dsimp only
    split
    · rename_i free
      have other : o ≠ nextOffset := by
        rintro rfl
        have same := (OrderedStore.get_of_next step).symm.trans found
        cases same
        exact notFree free
      exact (OrderedStore.get_del_of_ne other).trans found
    · exact found

theorem mergePrevious_kept (n : Nat) (found : a.extents.get o = some x)
    (notFree : x.status ≠ .free) (other : o ≠ offset) :
    (mergePrevious a offset n).1 ≠ o ∧
      (mergePrevious a offset n).2.2.2.extents.get o = some x := by
  unfold mergePrevious
  cases step : a.extents.next offsetBytes offset with
  | none => exact ⟨other.symm, found⟩
  | some entry =>
    obtain ⟨previousOffset, previous⟩ := entry
    dsimp only
    split
    · rename_i free
      refine ⟨?_, (OrderedStore.get_del_of_ne other).trans found⟩
      rintro rfl
      have same := (OrderedStore.get_of_next step).symm.trans found
      cases same
      exact notFree free
    · exact ⟨other.symm, found⟩

/-- Freeing a stored extent returns and leaves all other allocated ones, in any state. -/
theorem mtlFreeExtent_returns (stored : a.extents.get offset = some e) :
    ∃ a', mtlFreeExtent a offset = some a' ∧ ∀ {o x}, a.extents.get o = some x →
      x.status ≠ .free → o ≠ offset → a'.extents.get o = some x := by
  simp only [mtlFreeExtent, stored, Option.bind_eq_bind, Option.bind_some]
  refine ⟨_, rfl, ?_⟩
  intro o x found notFree other
  have first : (mergeFollowing a offset e.length).2.extents.get o = some x :=
    mergeFollowing_kept e.length found notFree
  obtain ⟨elsewhere, second⟩ := mergePrevious_kept (mergeFollowing a offset e.length).1 first
    notFree other
  exact (OrderedStore.get_put_of_ne elsewhere.symm).trans second

theorem run_frees_returns {l : List FileExtent} (nodup : (l.map FileExtent.offset).Nodup)
    (stored : ∀ e ∈ l, ∃ x, a.extents.get e.offset = some x ∧ x.status ≠ .free) :
    ∃ a', Runs.run AllocOp.step a (l.map fun e => .free e.offset) = some a' := by
  induction l generalizing a with
  | nil => exact ⟨a, rfl⟩
  | cons e l ih =>
    rw [List.map_cons, List.nodup_cons] at nodup
    obtain ⟨x, found, notFree⟩ := stored e List.mem_cons_self
    obtain ⟨a₁, freed, kept⟩ := mtlFreeExtent_returns found
    have later : ∀ e' ∈ l, ∃ x, a₁.extents.get e'.offset = some x ∧ x.status ≠ .free := by
      intro e' member
      obtain ⟨y, found', notFree'⟩ := stored e' (List.mem_cons_of_mem _ member)
      refine ⟨y, kept found' notFree' ?_, notFree'⟩
      intro same
      exact nodup.1 (same ▸ List.mem_map_of_mem member)
    obtain ⟨a', finished⟩ := ih nodup.2 later
    refine ⟨a', ?_⟩
    simp only [List.map_cons, Runs.run, AllocOp.step, freed, Option.bind_some]
    exact finished

/-- Truncating an allocated extent to a part of it returns and leaves all other allocated ones. -/
theorem mtlTruncateExtent_returns {N len : Nat} (inv : a.Inv N) (bound : N < 2 ^ 64)
    (stored : a.extents.get offset = some e) (nonzero : len ≠ 0) :
    ∃ a', mtlTruncateExtent a offset len = some a' ∧ ∀ {o x}, a.extents.get o = some x →
      x.status ≠ .free → o ≠ offset → a'.extents.get o = some x := by
  have inside := inv.le stored
  rcases Nat.lt_or_ge len e.length with high | full
  · have offsetEq : u64 (offset + len) = offset + len := u64_of_lt (by omega)
    have between := inv.get_eq_none_of_inside stored (x := offset + len) (by omega) (by omega)
    have rest : (truncatedExtents a offset len e).get (offset + len) =
        some ⟨e.length - len, .reserved, invalidNode⟩ := by
      rw [truncatedExtents, offsetEq, OrderedStore.get_put_self]
    obtain ⟨a', freed, kept⟩ := mtlFreeExtent_returns
      (a := ⟨truncatedExtents a offset len e, a.heap⟩) rest
    refine ⟨a', ?_, ?_⟩
    · simpa only [mtlTruncateExtent, if_neg nonzero, stored, Option.bind_eq_bind,
        Option.bind_some, if_pos high, offsetEq, truncatedExtents] using freed
    · intro o x found notFree other
      have notBetween : o ≠ offset + len := by
        rintro rfl
        rw [between] at found
        cases found
      refine kept ?_ notFree notBetween
      show (truncatedExtents a offset len e).get o = some x
      rw [truncatedExtents, offsetEq, OrderedStore.get_put_of_ne notBetween,
        OrderedStore.get_put_of_ne other, found]
  · simp only [mtlTruncateExtent, if_neg nonzero, stored, Option.bind_eq_bind, Option.bind_some,
      if_neg (Nat.not_lt.mpr full)]
    refine ⟨_, rfl, ?_⟩
    intro o x found _ other
    exact (OrderedStore.get_put_of_ne other).trans found

theorem run_calls_returns {N n : Nat} (inv : a.Inv N) (bound : N < 2 ^ 64)
    (nodup : ((before ++ pivot :: after).map FileExtent.offset).Nodup)
    (allocated : ∀ e ∈ before ++ pivot :: after, a.Allocated e.offset e.length) :
    ∃ a', Runs.run AllocOp.step a (pivotCall pivot n :: after.map fun e => .free e.offset) =
      some a' := by
  rw [List.map_append, List.map_cons, List.nodup_append, List.nodup_cons] at nodup
  obtain ⟨e, stored, -⟩ := allocated pivot (by simp)
  have first : ∃ a₁, (pivotCall pivot n).step a = some a₁ ∧ ∀ {o x}, a.extents.get o = some x →
      x.status ≠ .free → o ≠ pivot.offset → a₁.extents.get o = some x := by
    unfold pivotCall
    by_cases nonzero : n ≠ 0
    · rw [if_pos nonzero]
      exact mtlTruncateExtent_returns inv bound stored nonzero
    · rw [if_neg nonzero]
      exact mtlFreeExtent_returns stored
  obtain ⟨a₁, called, kept⟩ := first
  have later : ∀ e ∈ after, ∃ x, a₁.extents.get e.offset = some x ∧ x.status ≠ .free := by
    intro e' member
    obtain ⟨y, found, notFree, -⟩ := allocated e' (by simp [member])
    refine ⟨y, kept found notFree ?_, notFree⟩
    intro same
    exact nodup.2.1.1 (same ▸ List.mem_map_of_mem member)
  obtain ⟨a', finished⟩ := run_frees_returns nodup.2.1.2 later
  exact ⟨a', by rw [Runs.run, called]; exact finished⟩

end Returns

/-! ## When the contract is met -/

section Contract

variable (loaded : mtlLoadFile db id = some (inode, l))
  (short : offset < inode.length) (positive : 0 < metadata.blockSize)
  (pos : ∀ e ∈ l, 0 < e.length)
  (count : blockCount l = blocksFor metadata.blockSize inode.length)

include loaded short in
theorem mtlTruncateWith_of_short (step : Allocator → AllocOp → Option Allocator) :
    mtlTruncateWith step metadata db id offset =
      truncateLoopWith step metadata id offset l 0 0 db := by
  simp only [mtlTruncateWith, loaded, Option.bind_eq_bind, Option.bind_some,
    if_neg (Nat.not_le.mpr short)]

include short positive pos count in
/-- Only the end of the last extent can be `2 ^ 64` or more. -/
theorem dropLast_lt (small : inode.length < 2 ^ 64) :
    l ≠ [] ∧ blockCount l.dropLast * metadata.blockSize < 2 ^ 64 := by
  have nonempty : l ≠ [] := by
    rintro rfl
    have none := (blocksFor_le_iff positive).mp (Nat.le_of_eq count.symm)
    simp [blockCount] at none
    omega
  refine ⟨nonempty, ?_⟩
  have split := List.dropLast_append_getLast nonempty
  have total : blockCount l = blockCount l.dropLast + (l.getLast nonempty).length := by
    conv_lhs => rw [← split, blockCount_append, blockCount_singleton]
  have last := pos _ (List.getLast_mem nonempty)
  have less : ¬ blocksFor metadata.blockSize inode.length ≤ blockCount l.dropLast := by omega
  rw [blocksFor_le_iff positive] at less
  omega

include loaded short positive pos count in
/-- The walk cuts the extent that contains the new end, where it is reached. -/
theorem mtlTruncateWith_of_reached (small : inode.length < 2 ^ 64)
    (reached : EndReached metadata.blockSize offset l) :
    ∃ before pivot after n, l = before ++ pivot :: after ∧
      blockCount before * metadata.blockSize ≤ offset ∧
      offset < (blockCount before + pivot.length) * metadata.blockSize ∧
      n = blocksFor metadata.blockSize (offset - blockCount before * metadata.blockSize) ∧
      n ≤ pivot.length ∧ blocksFor metadata.blockSize offset = blockCount before + n ∧
      ∀ step, mtlTruncateWith step metadata db id offset =
        (Runs.run step db.allocator (pivotCall pivot n :: after.map fun e => .free e.offset)).map
          (shrunkDb db id offset inode (before ++ pivotRest pivot n)) := by
  obtain ⟨-, device⟩ := dropLast_lt short positive pos count small
  have covered : inode.length ≤ blockCount l * metadata.blockSize :=
    (blocksFor_le_iff positive).mp (Nat.le_of_eq count.symm)
  obtain ⟨before, pivot, after, rfl, low, high⟩ :=
    exists_pivot (show offset < blockCount l * metadata.blockSize by omega)
  have start : blockCount before * metadata.blockSize < 2 ^ 64 := by
    rw [List.dropLast_append_of_ne_nil (by simp), blockCount_append, Nat.add_mul] at device
    omega
  have reachedEnd := pivot_reached device low high reached
  obtain ⟨n, kept⟩ : ∃ n, n = blocksFor metadata.blockSize
    (offset - blockCount before * metadata.blockSize) := ⟨_, rfl⟩
  have total : blocksFor metadata.blockSize offset = blockCount before + n := by
    rw [kept, ← blocksFor_add positive, Nat.add_sub_cancel' low]
  have shorter : n ≤ pivot.length := by
    have all : blocksFor metadata.blockSize offset ≤ blockCount before + pivot.length := by
      rw [blocksFor_le_iff positive]
      omega
    omega
  refine ⟨before, pivot, after, n, rfl, low, high, kept, shorter, total, ?_⟩
  intro step
  have skip := @truncateLoopWith_keep metadata id offset db before (pivot :: after) step 0 0
    (by omega) (by omega)
  rw [mtlTruncateWith_of_short loaded short, skip, Nat.zero_add, Nat.zero_add]
  exact truncateLoopWith_pivot loaded device low reachedEnd kept

include loaded short positive pos count in
theorem cutsAtNewEnd_of_reached (small : inode.length < 2 ^ 64)
    (reached : EndReached metadata.blockSize offset l) :
    CutsAtNewEnd metadata db id offset inode l := by
  obtain ⟨before, pivot, after, n, rfl, low, high, kept, shorter, total, walk⟩ :=
    mtlTruncateWith_of_reached loaded short positive pos count small reached
  have fits := pivotRest_fits (mtlLoadFile_fits loaded) shorter
  refine ⟨pivotCall pivot n :: after.map fun e => .free e.offset, before ++ pivotRest pivot n,
    walk, by rw [mtlTruncate_eq_with, walk], callsCut_of_pivot positive pos low high kept,
    fun a => mtlLoadFile_put_self fits, pivotRest_isPrefix shorter, ?_, ?_⟩
  · rw [blockCount_pivotRest, total]
  · intro N inv bound nodup allocated
    exact run_calls_returns inv bound nodup allocated

include loaded short positive pos count in
/-- If the end of the last extent wraps around, nothing is done. -/
theorem mtlTruncate_of_not_reached (small : inode.length < 2 ^ 64)
    (missed : ¬ EndReached metadata.blockSize offset l) :
    mtlTruncate metadata db id offset = some db := by
  obtain ⟨nonempty, device⟩ := dropLast_lt short positive pos count small
  rw [EndReached, not_or, Nat.not_lt, Nat.not_lt] at missed
  obtain ⟨wrapped, front⟩ := missed
  have split := List.dropLast_append_getLast nonempty
  have total : blockCount l = blockCount l.dropLast + (l.getLast nonempty).length := by
    conv_lhs => rw [← split, blockCount_append, blockCount_singleton]
  have skip := @truncateLoopWith_keep metadata id offset db l.dropLast [l.getLast nonempty]
    AllocOp.step 0 0 (by omega) (by omega)
  rw [mtlTruncate_eq_with, mtlTruncateWith_of_short loaded short, ← split, skip, Nat.zero_add,
    Nat.zero_add]
  have notBehind : ¬ offset < blockCount l.dropLast * metadata.blockSize := by omega
  have notHere : ¬ offset < u64 (blockCount l.dropLast * metadata.blockSize +
      (l.getLast nonempty).length * metadata.blockSize) := by
    rw [← Nat.add_mul, ← total]
    omega
  simp only [truncateLoopWith, if_neg notBehind, if_neg notHere, Option.bind_eq_bind,
    Option.bind_some]

include loaded short in
theorem not_cutsAtNewEnd_of_unchanged (unchanged : mtlTruncate metadata db id offset = some db) :
    ¬ CutsAtNewEnd metadata db id offset inode l := by
  rintro ⟨calls, l', -, returned, -, reloaded, -⟩
  rw [unchanged] at returned
  obtain ⟨a, -, same⟩ := Option.map_eq_some_iff.mp returned.symm
  have again := reloaded a
  rw [same, loaded] at again
  have lengths := congrArg (fun r => r.map fun file => file.1.length) again
  simp only [Option.map_some, Option.some.injEq] at lengths
  omega

end Contract

/-- Shrinking a file of which every extent is non-empty and all the extents together have the
blocks that its length needs meets the contract exactly if the end of the extent to cut does not
wrap around. -/
theorem cutsAtNewEnd_iff {metadata : StorageMetadata} {db : Db} {id offset : Nat} {inode : Inode}
    {l : List FileExtent} (loaded : mtlLoadFile db id = some (inode, l))
    (positive : 0 < metadata.blockSize) (pos : ∀ e ∈ l, 0 < e.length)
    (count : blockCount l = blocksFor metadata.blockSize inode.length)
    (small : inode.length < 2 ^ 64) (short : offset < inode.length) :
    CutsAtNewEnd metadata db id offset inode l ↔ EndReached metadata.blockSize offset l := by
  refine ⟨?_, cutsAtNewEnd_of_reached loaded short positive pos count small⟩
  intro contract
  by_contra missed
  exact not_cutsAtNewEnd_of_unchanged loaded short
    (mtlTruncate_of_not_reached loaded short positive pos count small missed) contract

/-- A store with one file of `length` bytes. -/
def storedFile (length : Nat) (l : List FileExtent) : Db :=
  mtlPutInode ⟨∅, ⟨∅, ∅⟩, none⟩ 1 ⟨.file, length, 0, 0, 0, 0, 0, 0⟩ (extentBytes l)

theorem storedFile_loaded (length : Nat) {l : List FileExtent} (fits : ∀ e ∈ l, e.Fits) :
    mtlLoadFile (storedFile length l) 1 = some (⟨.file, length, 0, 0, 0, 0, 0, 0⟩, l) :=
  mtlLoadFile_put_self fits

theorem cutsAtNewEnd_storedFile :
    CutsAtNewEnd ⟨64, 512⟩ (storedFile 2100 [⟨4, 3⟩, ⟨0, 2⟩]) 1 1000
      ⟨.file, 2100, 0, 0, 0, 0, 0, 0⟩ [⟨4, 3⟩, ⟨0, 2⟩] := by
  have loaded := storedFile_loaded 2100 (l := [⟨4, 3⟩, ⟨0, 2⟩]) (by simp [FileExtent.Fits])
  refine (cutsAtNewEnd_iff loaded ?_ ?_ ?_ ?_ ?_).mpr (Or.inr ?_)
  · simp
  · simp
  · simp [blockCount, blocksFor]
  · simp
  · simp
  · simp [blockCount]

/-- A file of `2 ^ 64 - 1` bytes cannot be cut in its last extent. -/
theorem not_cutsAtNewEnd_storedFile :
    ¬ CutsAtNewEnd ⟨2 ^ 55, 512⟩ (storedFile (2 ^ 64 - 1) [⟨0, 2 ^ 55⟩]) 1 1000
      ⟨.file, 2 ^ 64 - 1, 0, 0, 0, 0, 0, 0⟩ [⟨0, 2 ^ 55⟩] := by
  have loaded := storedFile_loaded (2 ^ 64 - 1) (l := [⟨0, 2 ^ 55⟩]) (by simp [FileExtent.Fits])
  refine not_cutsAtNewEnd_of_unchanged loaded ?_ (mtlTruncate_of_not_reached loaded ?_ ?_ ?_ ?_ ?_ ?_)
  · simp
  · simp
  · simp
  · simp
  · simp [blockCount, blocksFor]
  · simp
  · simp [EndReached, blockCount, u64]

end MetalFs
