import MetalFs.Filesystem.Storage

/-!
# What the storage backend does

The extents of a file lay out its bytes on the device (`byteSegments`).  Byte `i`
of a file is at `Segments.locate (byteSegments extents) i`, and the two copy
loops move exactly these device bytes:

* `mtlStorageWrite_frame`: a write only touches device bytes of the file's extents;
* `mtlStorageWrite_spec`: it puts each byte of the buffer where the file has it;
* `mtlStorageRead_spec`: a read returns the bytes at these places;
* `mtlStorageRead_congr_range`: it depends on no other device byte.
-/

namespace MetalFs

open Segments

/-- The device bytes of an extent. -/
def FileExtent.byteSegment (e : FileExtent) : Segment := ⟨e.offset * blockSize, e.length * blockSize⟩

/-- The device bytes of a file, in file order. -/
def byteSegments (extents : List FileExtent) : List Segment :=
  extents.map FileExtent.byteSegment

/-- The extent lies on the device. -/
def FileExtent.Inside (e : FileExtent) : Prop := e.offset + e.length ≤ numBlocks

@[simp] theorem byteSegments_nil : byteSegments [] = [] := rfl

@[simp] theorem byteSegments_cons (e : FileExtent) (l : List FileExtent) :
    byteSegments (e :: l) = e.byteSegment :: byteSegments l := rfl

theorem total_byteSegments (l : List FileExtent) :
    total (byteSegments l) = (l.map FileExtent.length).sum * blockSize := by
  induction l with
  | nil => simp
  | cons e l ih =>
    simp only [byteSegments_cons, total_cons, ih, FileExtent.byteSegment, List.map_cons,
      List.sum_cons, Nat.add_mul]

theorem sum_length_le {l : List FileExtent} (inside : ∀ e ∈ l, e.Inside) :
    (l.map FileExtent.length).sum ≤ l.length * numBlocks := by
  induction l with
  | nil => simp
  | cons e l ih =>
    have first : e.offset + e.length ≤ numBlocks := inside e List.mem_cons_self
    have rest := ih fun x member => inside x (List.mem_cons_of_mem _ member)
    rw [List.map_cons, List.sum_cons, List.length_cons, Nat.add_mul]
    omega

theorem total_byteSegments_lt {l : List FileExtent} (inside : ∀ e ∈ l, e.Inside)
    (short : l.length ≤ mtlMaxExtents) : total (byteSegments l) < 2 ^ 64 := by
  have bound := sum_length_le inside
  rw [total_byteSegments]
  simp only [mtlMaxExtents, numBlocks, blockSize] at *
  omega

/-! ## Finding the extent -/

/-- Stepping to the extent of an offset, in all its outcomes. -/
theorem seekExtent_cases {l : List FileExtent} {start current : Nat} (low : start ≤ current)
    (high : start + total (byteSegments l) < 2 ^ 64) :
    (seekExtent l start current = none ∧ start + total (byteSegments l) ≤ current) ∨
      ∃ e rest start', seekExtent l start current = some (e, rest, start') ∧
        start ≤ start' ∧ start' ≤ current ∧ current < start' + e.length * blockSize ∧
        (∀ x ∈ e :: rest, x ∈ l) ∧
        start' + total (byteSegments (e :: rest)) = start + total (byteSegments l) ∧
        ∀ i, locate (byteSegments l) (start' - start + i) =
          locate (byteSegments (e :: rest)) i := by
  induction l generalizing start with
  | nil => exact Or.inl ⟨rfl, by simpa using low⟩
  | cons e l ih =>
    simp only [byteSegments_cons, total_cons, FileExtent.byteSegment] at high
    have sumEq : u64 (start + e.length * blockSize) = start + e.length * blockSize :=
      u64_of_lt (by omega)
    by_cases beyond : start + e.length * blockSize ≤ current
    · have step : seekExtent (e :: l) start current =
          seekExtent l (start + e.length * blockSize) current := by
        rw [seekExtent, sumEq, if_pos beyond]
      rw [step]
      simp only [byteSegments_cons, total_cons, FileExtent.byteSegment]
      rcases ih beyond (by omega) with
        ⟨none, above⟩ | ⟨e', rest, start', found, low', below, inside, members, same, located⟩
      · exact Or.inl ⟨none, by omega⟩
      · refine Or.inr ⟨e', rest, start', found, by omega, below, inside,
          fun x member => List.mem_cons_of_mem _ (members x member), ?_, ?_⟩
        · simp only [byteSegments_cons, total_cons, FileExtent.byteSegment] at same
          omega
        · intro i
          have notFirst : ¬ start' - start + i < e.length * blockSize := by omega
          have shift : start' - start + i - e.length * blockSize =
              start' - (start + e.length * blockSize) + i := by omega
          rw [locate]
          simp only [if_neg notFirst, shift, located i, byteSegments_cons,
            FileExtent.byteSegment]
    · refine Or.inr ⟨e, l, start, ?_, le_refl _, low, by omega, fun x member => member, rfl, ?_⟩
      · rw [seekExtent, sumEq, if_neg beyond]
      · intro i
        rw [Nat.sub_self, Nat.zero_add]

/-- The range one round copies lies in the extent. -/
theorem roundRange_of_le {e : FileExtent} {start current : Nat} (length : Nat) (inside : e.Inside)
    (low : start ≤ current) (high : current < start + e.length * blockSize)
    (bound : start + e.length * blockSize < 2 ^ 64) :
    roundRange e start current length =
      (current - start, min (e.length * blockSize - (current - start)) length) := by
  unfold FileExtent.Inside at inside
  simp only [numBlocks, blockSize] at *
  have posEq : u64 (current + 2 ^ 64 - start) = current - start := by unfold u64; omega
  have restEq : u64 (e.length * 4096 + 2 ^ 64 - (current - start)) =
      e.length * 4096 - (current - start) := by unfold u64; omega
  simp only [roundRange, blockSize, posEq, restEq]

theorem u64_address {e : FileExtent} {pos : Nat} (inside : e.Inside)
    (within : pos < e.length * blockSize) :
    u64 (e.offset * blockSize + pos) = e.offset * blockSize + pos := by
  unfold FileExtent.Inside at inside
  simp only [numBlocks, blockSize] at *
  exact u64_of_lt (by omega)

theorem locate_in_first {e : FileExtent} {rest : List FileExtent} {i : Nat}
    (within : i < e.length * blockSize) :
    locate (byteSegments (e :: rest)) i = some (e.offset * blockSize + i) := by
  rw [byteSegments_cons, locate]
  exact if_pos within

/-! ## One round of a copy loop -/

/-- What one round of a copy loop does: it found `extent`, and copies `n` bytes
from or to the device address `address`. -/
structure Round (l : List FileExtent) (start current length : Nat) (extent : FileExtent)
    (rest : List FileExtent) (start' n address : Nat) : Prop where
  found : seekExtent l start current = some (extent, rest, start')
  range : roundRange extent start' current length = (current - start', n)
  address_eq : u64 (extent.offset * blockSize + (current - start')) = address
  positive : 0 < n
  le : n ≤ length
  current_eq : u64 (current + n) = current + n
  low : start' ≤ current + n
  members : ∀ x ∈ extent :: rest, x ∈ l
  total_eq : start' + total (byteSegments (extent :: rest)) = start + total (byteSegments l)
  copied : ∀ i < n, locate (byteSegments l) (current - start + i) = some (address + i)
  remaining : ∀ i, locate (byteSegments (extent :: rest)) (current + n - start' + i) =
    locate (byteSegments l) (current - start + (n + i))

theorem round_cases {l : List FileExtent} {start current : Nat} (length : Nat) (low : start ≤ current)
    (high : start + total (byteSegments l) < 2 ^ 64) (inside : ∀ e ∈ l, e.Inside)
    (positive : 0 < length) :
    (seekExtent l start current = none ∧ start + total (byteSegments l) ≤ current) ∨
      ∃ e rest start' n address, Round l start current length e rest start' n address := by
  rcases seekExtent_cases low high with
    none | ⟨e, rest, start', found, first, low', below, members, same, located⟩
  · exact Or.inl none
  · have inside' := inside e (members e List.mem_cons_self)
    have bound : start' + e.length * blockSize < 2 ^ 64 := by
      simp only [byteSegments_cons, total_cons, FileExtent.byteSegment] at same
      omega
    have range := roundRange_of_le length inside' low' below bound
    refine Or.inr ⟨e, rest, start', min (e.length * blockSize - (current - start')) length,
      e.offset * blockSize + (current - start'), found, range, ?_, by omega, by omega,
      u64_of_lt (by omega), by omega, members, same, ?_, ?_⟩
    · exact u64_address inside' (by omega)
    · intro i small
      have shift : current - start + i = start' - start + (current - start' + i) := by omega
      rw [shift, located, locate_in_first (by omega), Nat.add_assoc]
    · intro i
      rw [← located]
      congr 1
      omega

/-! ## Writing -/

theorem memcpyTo_of_lt {storage : Storage} {dest i : Nat} {source : List Byte}
    (small : i < source.length) : memcpyTo storage dest source (dest + i) = source[i] := by
  simp only [memcpyTo, if_pos (Nat.le_add_right dest i), Nat.add_sub_cancel_left,
    List.getElem?_eq_getElem small, Option.getD_some]

theorem memcpyTo_of_outside {storage : Storage} {dest x : Nat} {source : List Byte}
    (outside : ∀ i < source.length, x ≠ dest + i) : memcpyTo storage dest source x = storage x := by
  unfold memcpyTo
  split
  · rename_i low
    have above : source.length ≤ x - dest := by
      by_contra small
      exact outside (x - dest) (by omega) (by omega)
    rw [List.getElem?_eq_none above, Option.getD_none]
  · rfl

/-- A write changes no device byte that the file does not have in the written range. -/
theorem storageWriteLoop_frame {fuel : Nat} {storage storage' : Storage} {l : List FileExtent}
    {start current : Nat} {buffer : List Byte} (low : start ≤ current)
    (high : start + total (byteSegments l) < 2 ^ 64) (inside : ∀ e ∈ l, e.Inside)
    (written : storageWriteLoop fuel storage l start current buffer = some storage') {x : Nat}
    (outside : ∀ i < buffer.length, locate (byteSegments l) (current - start + i) ≠ some x) :
    storage' x = storage x := by
  induction fuel generalizing storage l start current buffer with
  | zero =>
    cases buffer with
    | nil =>
      cases written
      rfl
    | cons byte buffer => cases written
  | succ fuel ih =>
    cases buffer with
    | nil =>
      cases written
      rfl
    | cons byte buffer =>
      rcases round_cases (buffer.length + 1) low high inside (by omega) with
        ⟨none, _⟩ | ⟨e, rest, start', n, address, round⟩
      · simp only [storageWriteLoop, none] at written
        cases written
      · simp only [storageWriteLoop, round.found, round.range, round.address_eq,
          round.current_eq] at written
        have count := round.le
        have same := ih round.low (by rw [round.total_eq]; exact high)
          (fun e member => inside e (round.members e member)) written (by
            intro i small
            rw [round.remaining]
            rw [List.length_drop, List.length_cons] at small
            exact outside (n + i) (by rw [List.length_cons]; omega))
        rw [same, memcpyTo_of_outside]
        intro i small located
        rw [List.length_take, List.length_cons] at small
        refine outside i (by rw [List.length_cons]; omega) ?_
        rw [round.copied i (by omega), located]

/-- A write inside the file returns, and puts each byte where the file has it. -/
theorem storageWriteLoop_spec {fuel : Nat} (storage : Storage) {l : List FileExtent}
    {start current : Nat} {buffer : List Byte} (low : start ≤ current)
    (high : start + total (byteSegments l) < 2 ^ 64) (inside : ∀ e ∈ l, e.Inside)
    (inj : ∀ i j x, locate (byteSegments l) (current - start + i) = some x →
      locate (byteSegments l) (current - start + j) = some x → i = j)
    (enough : buffer.length ≤ fuel)
    (fits : current - start + buffer.length ≤ total (byteSegments l)) :
    ∃ storage', storageWriteLoop fuel storage l start current buffer = some storage' ∧
      ∀ i x, (small : i < buffer.length) →
        locate (byteSegments l) (current - start + i) = some x → storage' x = buffer[i] := by
  induction fuel generalizing storage l start current buffer with
  | zero =>
    obtain rfl : buffer = [] := List.length_eq_zero_iff.mp (by omega)
    exact ⟨storage, rfl, fun i x small => absurd small (by simp)⟩
  | succ fuel ih =>
    cases buffer with
    | nil => exact ⟨storage, rfl, fun i x small => absurd small (by simp)⟩
    | cons byte buffer =>
      rw [List.length_cons] at enough fits
      rcases round_cases (buffer.length + 1) low high inside (by omega) with
        ⟨_, above⟩ | ⟨e, rest, start', n, address, round⟩
      · omega
      · have count := round.le
        have positive := round.positive
        have total_eq := round.total_eq
        have later := round.low
        have inside' : ∀ e' ∈ e :: rest, e'.Inside :=
          fun e' member => inside e' (round.members e' member)
        have high' : start' + total (byteSegments (e :: rest)) < 2 ^ 64 := by omega
        obtain ⟨storage', written, content⟩ :=
          @ih (memcpyTo storage address ((byte :: buffer).take n)) (e :: rest) start' (current + n)
          ((byte :: buffer).drop n) later high' inside'
          (by
            intro i j x first second
            rw [round.remaining] at first second
            have := inj _ _ x first second
            omega)
          (by rw [List.length_drop, List.length_cons]; omega)
          (by rw [List.length_drop, List.length_cons]; omega)
        refine ⟨storage', ?_, ?_⟩
        · simp only [storageWriteLoop, round.found, round.range, round.address_eq,
            round.current_eq]
          exact written
        · intro i x small located
          by_cases early : i < n
          · have here := (round.copied i early).symm.trans located
            cases here
            -- The remaining rounds write other positions, and these have other addresses.
            rw [storageWriteLoop_frame later high' inside' written, memcpyTo_of_lt]
            · exact List.getElem_take
            · rw [List.length_take]
              omega
            · intro j _ again
              rw [round.remaining] at again
              have := inj _ _ _ again located
              omega
          · have within : i - n < ((byte :: buffer).drop n).length := by
              rw [List.length_drop]
              omega
            have same := content (i - n) x within (by
              rw [round.remaining, ← located]
              congr 1
              omega)
            rw [same, List.getElem_drop]
            congr 1
            omega

/-! ## Reading -/

theorem length_memcpyFrom (storage : Storage) (source n : Nat) :
    (memcpyFrom storage source n).length = n := by
  simp only [memcpyFrom, List.length_map, List.length_range]

theorem getElem?_memcpyFrom {storage : Storage} {source n i : Nat} (small : i < n) :
    (memcpyFrom storage source n)[i]? = some (storage (source + i)) := by
  simp only [memcpyFrom, List.getElem?_map, List.getElem?_range small, Option.map_some]

/-- A read inside the file returns the bytes at the places the file has them. -/
theorem storageReadLoop_spec {fuel : Nat} (storage : Storage) {l : List FileExtent}
    {start current length : Nat} (low : start ≤ current)
    (high : start + total (byteSegments l) < 2 ^ 64) (inside : ∀ e ∈ l, e.Inside)
    (enough : length ≤ fuel) (fits : current - start + length ≤ total (byteSegments l)) :
    ∃ bytes, storageReadLoop fuel storage l start current length = some bytes ∧
      bytes.length = length ∧
      ∀ i x, i < length → locate (byteSegments l) (current - start + i) = some x →
        bytes[i]? = some (storage x) := by
  induction fuel generalizing l start current length with
  | zero =>
    obtain rfl : length = 0 := by omega
    exact ⟨[], rfl, rfl, fun i x small => absurd small (by simp)⟩
  | succ fuel ih =>
    cases length with
    | zero => exact ⟨[], rfl, rfl, fun i x small => absurd small (by simp)⟩
    | succ length =>
      rcases round_cases (length + 1) low high inside (by omega) with
        ⟨_, above⟩ | ⟨e, rest, start', n, address, round⟩
      · omega
      · have count := round.le
        have positive := round.positive
        have total_eq := round.total_eq
        have later := round.low
        obtain ⟨bytes, read, lengthEq, content⟩ :=
          @ih (e :: rest) start' (current + n) (length + 1 - n) later (by omega)
          (fun e' member => inside e' (round.members e' member)) (by omega) (by omega)
        refine ⟨memcpyFrom storage address n ++ bytes, ?_, ?_, ?_⟩
        · simp only [storageReadLoop, round.found, round.range, round.address_eq,
            round.current_eq, read, Option.bind_eq_bind, Option.bind_some]
        · rw [List.length_append, length_memcpyFrom, lengthEq]
          omega
        · intro i x small located
          by_cases early : i < n
          · have here := (round.copied i early).symm.trans located
            cases here
            rw [List.getElem?_append_left (by rw [length_memcpyFrom]; exact early)]
            exact getElem?_memcpyFrom early
          · rw [List.getElem?_append_right (by rw [length_memcpyFrom]; omega),
              length_memcpyFrom]
            refine content (i - n) x (by omega) ?_
            rw [round.remaining, ← located]
            congr 1
            omega

/-- A read depends on the device bytes of the read range only. -/
theorem storageReadLoop_congr {fuel : Nat} {storage storage' : Storage} {l : List FileExtent}
    {start current length : Nat} (low : start ≤ current)
    (high : start + total (byteSegments l) < 2 ^ 64) (inside : ∀ e ∈ l, e.Inside)
    (same : ∀ i < length, ∀ x, locate (byteSegments l) (current - start + i) = some x →
      storage' x = storage x) :
    storageReadLoop fuel storage' l start current length =
      storageReadLoop fuel storage l start current length := by
  induction fuel generalizing l start current length with
  | zero =>
    cases length with
    | zero => rfl
    | succ length => rfl
  | succ fuel ih =>
    cases length with
    | zero => rfl
    | succ length =>
      rcases round_cases (length + 1) low high inside (by omega) with
        ⟨none, _⟩ | ⟨e, rest, start', n, address, round⟩
      · simp only [storageReadLoop, none]
      · have total_eq := round.total_eq
        have count := round.le
        have copied : memcpyFrom storage' address n = memcpyFrom storage address n := by
          refine List.map_congr_left ?_
          intro i member
          have small := List.mem_range.mp member
          exact same i (by omega) _ (round.copied i small)
        have rest := @ih (e :: rest) start' (current + n) (length + 1 - n) round.low (by omega)
          (fun e' member => inside e' (round.members e' member))
          (by
            intro i small x located
            rw [round.remaining] at located
            exact same (n + i) (by omega) x located)
        simp only [storageReadLoop, round.found, round.range, round.address_eq,
          round.current_eq, rest, copied]

/-! ## The backend -/

theorem loadedExtents_of_long {db : Db} {inodeId : Nat} {inode : Inode} {l : List FileExtent}
    (loaded : mtlLoadFile db inodeId = some (inode, l)) (long : mtlMaxExtents < l.length) :
    loadedExtents db inodeId = [] := by
  simp only [loadedExtents, mtlLoadExtentList, loaded, if_pos long]

theorem loadedExtents_of_load {db : Db} {inodeId : Nat} {inode : Inode} {l : List FileExtent}
    (loaded : mtlLoadFile db inodeId = some (inode, l)) (short : l.length ≤ mtlMaxExtents) :
    loadedExtents db inodeId = l := by
  simp only [loadedExtents, mtlLoadExtentList, loaded, if_neg (Nat.not_lt.mpr short)]

/-- A write changes no device byte outside the extents of the file. -/
theorem mtlStorageWrite_frame {db : Db} {storage storage' : Storage} {inodeId offset : Nat}
    {inode : Inode} {l : List FileExtent} (loaded : mtlLoadFile db inodeId = some (inode, l))
    (inside : ∀ e ∈ l, e.Inside) {buffer : List Byte}
    (written : mtlStorageWrite db storage inodeId offset buffer = some storage') {x : Nat}
    (outside : ∀ e ∈ l, ¬ e.byteSegment.Contains x) : storage' x = storage x := by
  rw [mtlStorageWrite] at written
  split at written
  · by_cases short : l.length ≤ mtlMaxExtents
    · rw [loadedExtents_of_load loaded short] at written
      refine storageWriteLoop_frame (Nat.zero_le _) (by
        rw [Nat.zero_add]; exact total_byteSegments_lt inside short) inside written ?_
      intro i _ located
      obtain ⟨segment, member, contains⟩ := locate_mem located
      obtain ⟨e, inList, rfl⟩ := List.mem_map.mp member
      exact outside e inList contains
    · rw [loadedExtents_of_long loaded (Nat.not_le.mp short)] at written
      exact storageWriteLoop_frame (Nat.zero_le _) (by simp) (by simp) written (by simp [locate])
  · cases written

section

variable {db : Db} (storage : Storage) {inodeId offset : Nat} {inode : Inode}
  {l : List FileExtent} (loaded : mtlLoadFile db inodeId = some (inode, l))
  (short : l.length ≤ mtlMaxExtents) (inside : ∀ e ∈ l, e.Inside)

include loaded short inside

/-- A write inside the file returns and puts each byte where the file has it;
every other device byte is as before. -/
theorem mtlStorageWrite_spec {buffer : List Byte}
    (disjoint : (byteSegments l).Pairwise Segment.Disjoint)
    (device : offset + buffer.length < numBlocks * blockSize)
    (fits : offset + buffer.length ≤ total (byteSegments l)) :
    ∃ storage', mtlStorageWrite db storage inodeId offset buffer = some storage' ∧
      (∀ i x, (small : i < buffer.length) →
        locate (byteSegments l) (offset + i) = some x → storage' x = buffer[i]) ∧
      ∀ x, (∀ i < buffer.length, locate (byteSegments l) (offset + i) ≠ some x) →
        storage' x = storage x := by
  have bound : 0 + total (byteSegments l) < 2 ^ 64 := by
    rw [Nat.zero_add]
    exact total_byteSegments_lt inside short
  obtain ⟨storage', written, content⟩ := storageWriteLoop_spec storage
    (Nat.zero_le offset) bound inside
    (fun i j x first second => by
      have := locate_inj disjoint first second
      omega) (le_refl _) (by simpa using fits)
  refine ⟨storage', ?_, content, ?_⟩
  · rw [mtlStorageWrite, loadedExtents_of_load loaded short, if_pos ?_]
    · exact written
    · rw [u64_of_lt]
      · exact device
      · simp only [numBlocks, blockSize] at device
        omega
  · intro x outside
    exact storageWriteLoop_frame (Nat.zero_le _) bound inside written outside

/-- A read inside the file returns the bytes at the places the file has them. -/
theorem mtlStorageRead_spec {length : Nat} (device : offset + length < numBlocks * blockSize)
    (fits : offset + length ≤ total (byteSegments l)) :
    ∃ bytes, mtlStorageRead db storage inodeId offset length = some bytes ∧
      bytes.length = length ∧
      ∀ i x, i < length → locate (byteSegments l) (offset + i) = some x →
        bytes[i]? = some (storage x) := by
  obtain ⟨bytes, read, lengthEq, content⟩ := storageReadLoop_spec storage
    (Nat.zero_le offset) (by
      rw [Nat.zero_add]; exact total_byteSegments_lt inside short) inside (le_refl length)
    (by simpa using fits)
  refine ⟨bytes, ?_, lengthEq, content⟩
  rw [mtlStorageRead, loadedExtents_of_load loaded short, u64_of_lt (by
    simp only [numBlocks, blockSize] at device; omega), if_pos device]
  exact read

end

/-- What a read returns depends on the extents of the file and on the device bytes of the read range
only. -/
theorem mtlStorageRead_congr_range {db db' : Db} {storage storage' : Storage} {inodeId : Nat}
    {inode : Inode} {l : List FileExtent} (loaded : mtlLoadFile db inodeId = some (inode, l))
    (loaded' : mtlLoadFile db' inodeId = some (inode, l))
    (inside : ∀ e ∈ l, e.Inside) {offset length : Nat}
    (same : ∀ i < length, ∀ x, locate (byteSegments l) (offset + i) = some x →
      storage' x = storage x) :
    mtlStorageRead db' storage' inodeId offset length =
      mtlStorageRead db storage inodeId offset length := by
  have extents : loadedExtents db' inodeId = loadedExtents db inodeId := by
    simp only [loadedExtents, mtlLoadExtentList, loaded, loaded']
  rw [mtlStorageRead, mtlStorageRead, extents]
  by_cases short : l.length ≤ mtlMaxExtents
  · rw [loadedExtents_of_load loaded short, storageReadLoop_congr (Nat.zero_le _) (by
      rw [Nat.zero_add]; exact total_byteSegments_lt inside short) inside same]
  · rw [loadedExtents_of_long loaded (Nat.not_le.mp short), storageReadLoop_congr (Nat.zero_le _)
      (by simp) (by simp) (by simp [locate])]

/-- What a read returns depends on the extents of the file and on their device
bytes only. -/
theorem mtlStorageRead_congr {db db' : Db} {storage storage' : Storage} {inodeId : Nat}
    {inode : Inode} {l : List FileExtent} (loaded : mtlLoadFile db inodeId = some (inode, l))
    (loaded' : mtlLoadFile db' inodeId = some (inode, l))
    (inside : ∀ e ∈ l, e.Inside)
    (same : ∀ e ∈ l, ∀ x, e.byteSegment.Contains x → storage' x = storage x)
    (offset length : Nat) :
    mtlStorageRead db' storage' inodeId offset length =
      mtlStorageRead db storage inodeId offset length := by
  refine mtlStorageRead_congr_range loaded loaded' inside ?_
  intro i _ x located
  obtain ⟨segment, inList, contains⟩ := locate_mem located
  obtain ⟨e, member, rfl⟩ := List.mem_map.mp inList
  exact same e member x contains

end MetalFs
