import MetalFs.Fpga.Extmap
import MetalFs.Fpga.Membus

/-!
# Extent maps from the host

`mapExtents` of the file data contexts writes the extents of a file to a job structure,
as big-endian words behind a line with the slot, and `action_map` of `mtl_jobs.cpp` loads
them from the lines of the bus, four extents a line.

`mtlExtmapLoadLines_agrees`: the map that is loaded from the lines is the one that
`mtlExtmapLoad` makes of the extents.
-/

namespace MetalFs.Fpga

open Segments

/-! ## The host -/

/-- `ExtmapSlot`. -/
inductive ExtmapSlot where
  | cardDRAMRead
  | cardDRAMWrite
  | nvmeRead
  | nvmeWrite
deriving DecidableEq, Repr

/-- The value of the enumerator. -/
def ExtmapSlot.value : ExtmapSlot → Nat
  | cardDRAMRead => 0
  | cardDRAMWrite => 1
  | nvmeRead => 2
  | nvmeWrite => 3

/-- The two words of extent `i` in the job structure. -/
def extentWords (extents : List Segment) (i : Nat) : List Byte :=
  match extents[i]? with
  | some extent => beBytes 8 extent.start ++ beBytes 8 extent.count
  | none => List.replicate 16 (byte 0)

/-- The job structure of `mapExtents`; `unset` are the seven words that are not written. -/
def jobStruct (unset : List Byte) (slot : ExtmapSlot) (extents : List Segment) : List Byte :=
  beBytes 8 slot.value ++ unset ++ (List.range maxExtentsPerFile).flatMap (extentWords extents)

/-- `FileDataSinkContext::mapExtents`. -/
def FileDataSinkContext.mapExtents (unset : List Byte) (slot : ExtmapSlot)
    (extents : List Segment) : List Byte := jobStruct unset slot extents

/-- `FileDataSourceContext::mapExtents`. -/
def FileDataSourceContext.mapExtents (unset : List Byte) (slot : ExtmapSlot)
    (extents : List Segment) : List Byte := jobStruct unset slot extents

/-! ## The FPGA -/

/-- `MTL_MASK`. -/
def mtlMask (bhi blo : Nat) : Nat := 2 ^ (bhi + 1) - 2 ^ blo

/-- `MTL_EXTENTS_PER_LINE_W`. -/
def mtlExtentsPerLineW : Nat := addrRightShift - 4

/-- The assignments of a round to the arrays. -/
def Extmap.setExtent (map : Extmap) (i start count lastBlock : Nat) : Extmap :=
  { map with
    extentsBegin := Function.update map.extentsBegin i start
    extentsCount := Function.update map.extentsCount i count
    extentsNextlblock := Function.update map.extentsNextlblock i lastBlock }

/-- The loop of `mtl_extmap_load` from extent `iExtent` on; `o_line_extent` has two bits. -/
def extmapLoadLoop (mem : Nat → Nat) : Nat → Nat → Nat → Nat → Nat → Extmap → Extmap
  | 0, _, _, _, _, map => map
  | rounds + 1, iExtent, lineAddress, line, lastBlock, map =>
    let oLineExtent := (iExtent &&& mtlMask mtlExtentsPerLineW 0) % 2 ^ mtlExtentsPerLineW
    let line := if oLineExtent = 0 then mem (mfbAddress lineAddress) else line
    let lineAddress := if oLineExtent = 0 then u64 (lineAddress + mfbIncrement) else lineAddress
    let start := mtlGet64be 0 line
    let count := mtlGet64be 8 line
    let lastBlock := u64 (lastBlock + count)
    extmapLoadLoop mem rounds (iExtent + 1) lineAddress (line / 2 ^ ((8 + 8) * 8)) lastBlock
      (map.setExtent iExtent start count lastBlock)

/-- `mtl_extmap_load`, from the lines of the bus. -/
def mtlExtmapLoadLines (map : Extmap) (extentAddress : Nat) (mem : Nat → Nat) : Extmap :=
  let map := extmapLoadLoop mem maxExtentsPerFile 0 extentAddress 0 0 map
  map.moveTo 0 (map.extentsBegin 0)

/-- The extent maps of the FPGA. -/
abbrev ExtmapFile := ExtmapSlot → Extmap

/-- `SNAP_RETC_SUCCESS` and `SNAP_RETC_FAILURE`. -/
inductive Retc where
  | success
  | failure
deriving DecidableEq, Repr

/-- `static_cast<ExtmapSlot>`, for the values that have an enumerator. -/
def ExtmapSlot.ofValue (value : Nat) : Option ExtmapSlot :=
  [cardDRAMRead, cardDRAMWrite, nvmeRead, nvmeWrite].find? fun slot => slot.value = value

/-- The `switch` of `action_map`. -/
def loadSlot (maps : ExtmapFile) (memIn : Nat → Nat) (extentAddress : Nat) :
    Option ExtmapSlot → ExtmapFile × Retc
  | some slot =>
    (Function.update maps slot (mtlExtmapLoadLines (maps slot) extentAddress memIn), .success)
  | none => (maps, .failure)

/-- `action_map`. -/
def actionMap (maps : ExtmapFile) (memIn : Nat → Nat) (jobAddress : Nat) : ExtmapFile × Retc :=
  let line := memIn (mfbAddress jobAddress)
  let extentAddress := u64 (jobAddress + mfbIncrement)
  loadSlot maps memIn extentAddress (ExtmapSlot.ofValue (mtlGet64be 0 line))

/-! ## The lines of a table of extents -/

theorem length_extentWords (extents : List Segment) (i : Nat) :
    (extentWords extents i).length = 16 := by
  unfold extentWords
  split
  · rw [List.length_append, length_beBytes, length_beBytes]
  · exact List.length_replicate

/-- The words of an extent are those of `mapExtents`. -/
theorem ofBeBytes_extentWords (extents : List Segment) (i : Nat) :
    ofBeBytes ((extentWords extents i).take 8) = (mapExtents extents i).start ∧
      ofBeBytes ((extentWords extents i).drop 8) = (mapExtents extents i).count := by
  unfold extentWords mapExtents
  cases extents[i]? with
  | none => exact ⟨rfl, rfl⟩
  | some extent =>
    dsimp only
    rw [List.take_left' (length_beBytes 8 _), List.drop_left' (length_beBytes 8 _),
      ofBeBytes_beBytes, ofBeBytes_beBytes]
    exact ⟨rfl, rfl⟩

/-- The table of the extents. -/
def extentTable (extents : List Segment) : List Byte :=
  (List.range maxExtentsPerFile).flatMap (extentWords extents)

theorem length_extentTable (extents : List Segment) :
    (extentTable extents).length = 16 * maxExtentsPerFile :=
  length_flatMap_range (length_extentWords extents) maxExtentsPerFile

/-- The line in round `i` of the loop. -/
def extentLine (extents : List Segment) (i : Nat) : Nat :=
  ofLeBytes ((((extentTable extents).drop (64 * (i / 4))).take 64).drop (16 * (i % 4)))

section Lines

variable {extents : List Segment} {mem : Nat → Nat} {i : Nat}

/-- The words at the front of the line are those of the extent. -/
theorem extentLine_words (below : i < maxExtentsPerFile) :
    mtlGet64be 0 (extentLine extents i) = (mapExtents extents i).start ∧
      mtlGet64be 8 (extentLine extents i) = (mapExtents extents i).count := by
  have size : maxExtentsPerFile = 512 := rfl
  have length := length_extentTable extents
  rw [size] at below length
  have long : 16 ≤ ((((extentTable extents).drop (64 * (i / 4))).take 64).drop
      (16 * (i % 4))).length := by
    rw [List.length_drop, List.length_take, List.length_drop, length]
    omega
  have entry : ((((extentTable extents).drop (64 * (i / 4))).take 64).drop (16 * (i % 4))).take 16 =
      extentWords extents i := by
    have place : 64 * (i / 4) + 16 * (i % 4) = 16 * i := by omega
    rw [slice_take _ (by omega), List.drop_drop, place]
    exact slice_flatMap_range (length_extentWords extents) below
  obtain ⟨first, second⟩ := ofBeBytes_extentWords extents i
  unfold extentLine
  generalize (((extentTable extents).drop (64 * (i / 4))).take 64).drop (16 * (i % 4)) = front
    at long entry
  constructor
  · rw [mtlGet64be_ofLeBytes (by omega), ← first, ← entry, List.take_take, List.drop_zero]
    rfl
  · rw [mtlGet64be_ofLeBytes (by omega), ← second, ← entry, List.drop_take]

theorem extentLine_shift (same : (i + 1) % 4 ≠ 0) :
    extentLine extents i / 2 ^ ((8 + 8) * 8) = extentLine extents (i + 1) := by
  have group : (i + 1) / 4 = i / 4 := by omega
  have place : 16 * (i % 4) + 16 = 16 * ((i + 1) % 4) := by omega
  have power : 2 ^ ((8 + 8) * 8) = 256 ^ 16 := by decide
  rw [extentLine, extentLine, power, ← ofLeBytes_drop, List.drop_drop, group, place]

theorem extentLine_fetch {extentAddress : Nat}
    (holds : HoldsAt mem extentAddress (extentTable extents)) (below : i < maxExtentsPerFile)
    (start : i % 4 = 0) : mem (mfbAddress extentAddress + i / 4) = extentLine extents i := by
  have size : maxExtentsPerFile = 512 := rfl
  have width : sizeofMembus = 64 := rfl
  have inside : sizeofMembus * (i / 4 + 1) ≤ (extentTable extents).length := by
    rw [length_extentTable, size, width]
    rw [size] at below
    omega
  rw [holds (i / 4) inside, busLine, extentLine, start, Nat.mul_zero, List.drop_zero, width]

end Lines

/-! ## The loop -/

/-- The map holds the extents at the places from `lo` up to `hi`. -/
def Extmap.HoldsBetween (map : Extmap) (extents : List Segment) (lo hi : Nat) : Prop :=
  ∀ j, lo ≤ j → j < hi → map.extentsBegin j = (mapExtents extents j).start ∧
    map.extentsCount j = (mapExtents extents j).count ∧
    map.extentsNextlblock j = lastBlock (mapExtents extents) (j + 1)

theorem Extmap.HoldsBetween.setExtent {map : Extmap} {extents : List Segment} {i : Nat}
    (holds : map.HoldsBetween extents 0 i) :
    (map.setExtent i (mapExtents extents i).start (mapExtents extents i).count
      (lastBlock (mapExtents extents) (i + 1))).HoldsBetween extents 0 (i + 1) := by
  intro j low high
  unfold Extmap.setExtent
  dsimp only
  rcases Nat.lt_or_eq_of_le (Nat.le_of_lt_succ high) with earlier | rfl
  · rw [Function.update_of_ne earlier.ne, Function.update_of_ne earlier.ne,
      Function.update_of_ne earlier.ne]
    exact holds j low earlier
  · rw [Function.update_self, Function.update_self, Function.update_self]
    exact ⟨rfl, rfl, rfl⟩

theorem oLineExtent_eq (iExtent : Nat) :
    (iExtent &&& mtlMask mtlExtentsPerLineW 0) % 2 ^ mtlExtentsPerLineW = iExtent % 4 := by
  have mask : mtlMask mtlExtentsPerLineW 0 = 2 ^ 3 - 1 := rfl
  have width : 2 ^ mtlExtentsPerLineW = 4 := rfl
  rw [mask, Nat.and_two_pow_sub_one_eq_mod, width]
  omega

/-- A round of the loop reads one extent. -/
theorem extmapLoadLoop_holds {extents : List Segment} {mem : Nat → Nat} {extentAddress : Nat}
    (holds : HoldsAt mem extentAddress (extentTable extents))
    (inMemory : extentAddress + 64 * 128 ≤ 2 ^ 64) {rounds i lineAddress line : Nat} {map : Extmap}
    (position : i + rounds = maxExtentsPerFile)
    (address : lineAddress = u64 (extentAddress + 64 * ((i + 3) / 4)))
    (front : i % 4 ≠ 0 → line = extentLine extents i) (loaded : map.HoldsBetween extents 0 i) :
    (extmapLoadLoop mem rounds i lineAddress line (lastBlock (mapExtents extents) i) map).HoldsBetween
      extents 0 maxExtentsPerFile := by
  have size : maxExtentsPerFile = 512 := rfl
  have step : mfbIncrement = 64 := rfl
  induction rounds generalizing i lineAddress line map with
  | zero =>
    rw [Nat.add_zero] at position
    rw [← position]
    exact loaded
  | succ rounds ih =>
    have below : i < maxExtentsPerFile := by omega
    have current : (if i % 4 = 0 then mem (mfbAddress lineAddress) else line) =
        extentLine extents i := by
      split
      · rename_i start
        have place : mfbAddress lineAddress = mfbAddress extentAddress + i / 4 := by
          have group : (i + 3) / 4 = i / 4 := by omega
          rw [address, group, u64_of_lt (by omega), mfbAddress, mfbAddress]
          exact Nat.add_mul_div_left _ _ (by decide)
        rw [place, extentLine_fetch holds below start]
      · rename_i middle
        exact front middle
    have next : (if i % 4 = 0 then u64 (lineAddress + mfbIncrement) else lineAddress) =
        u64 (extentAddress + 64 * ((i + 1 + 3) / 4)) := by
      rw [address, step]
      unfold u64
      split
      · have group : (i + 1 + 3) / 4 = (i + 3) / 4 + 1 := by omega
        rw [group]
        omega
      · have group : (i + 1 + 3) / 4 = (i + 3) / 4 := by omega
        rw [group]
    obtain ⟨start, count⟩ := @extentLine_words extents i below
    unfold extmapLoadLoop
    simp only [oLineExtent_eq, current, start, count]
    apply ih
    · omega
    · exact next
    · intro middle
      exact extentLine_shift middle
    · exact loaded.setExtent

/-- The map that is loaded from the lines has the extents of the table. -/
theorem mtlExtmapLoadLines_agrees {extents : List Segment} {mem : Nat → Nat} {extentAddress : Nat}
    (holds : HoldsAt mem extentAddress (extentTable extents))
    (inMemory : extentAddress + 64 * 128 ≤ 2 ^ 64) (map : Extmap) :
    (mtlExtmapLoadLines map extentAddress mem).HoldsBetween extents 0 maxExtentsPerFile := by
  have nothing : map.HoldsBetween extents 0 0 := by
    intro j _ high
    exact absurd high (Nat.not_lt_zero j)
  have initial : extentAddress = u64 (extentAddress + 64 * ((0 + 3) / 4)) :=
    (u64_of_lt (by omega)).symm
  have front : 0 % 4 ≠ 0 → 0 = extentLine extents 0 := fun middle => absurd rfl middle
  have loop := extmapLoadLoop_holds holds inMemory (Nat.zero_add maxExtentsPerFile) initial front
    nothing
  rw [lastBlock] at loop
  intro j low high
  simp only [mtlExtmapLoadLines, Extmap.moveTo_extentsBegin, Extmap.moveTo_extentsCount,
    Extmap.moveTo_extentsNextlblock]
  exact loop j low high

/-! ## Seeking in a map that was loaded -/

/-- `mtl_extmap_seek` only looks at the places of the arrays. -/
theorem mtlExtmapSeek_congr {map map' : Extmap}
    (begins : ∀ i < maxExtentsPerFile, map.extentsBegin i = map'.extentsBegin i)
    (nexts : ∀ i < maxExtentsPerFile, map.extentsNextlblock i = map'.extentsNextlblock i)
    (lblock : Nat) : (mtlExtmapSeek map lblock).2 = (mtlExtmapSeek map' lblock).2 ∧
      ((mtlExtmapSeek map' lblock).2 = true →
        (mtlExtmapSeek map lblock).1.currentPblock = (mtlExtmapSeek map' lblock).1.currentPblock) := by
  have firsts : ∀ i < maxExtentsPerFile,
      mtlExtmapFirstlblock map i = mtlExtmapFirstlblock map' i := by
    intro i below
    unfold mtlExtmapFirstlblock
    rw [nexts (i - 1) (by omega)]
  have found : ((List.range maxExtentsPerFile).find? fun iExtent =>
      decide (mtlExtmapFirstlblock map iExtent ≤ lblock ∧ lblock < map.extentsNextlblock iExtent)) =
      (List.range maxExtentsPerFile).find? fun iExtent =>
      decide (mtlExtmapFirstlblock map' iExtent ≤ lblock ∧
        lblock < map'.extentsNextlblock iExtent) := by
    apply List.find?_congr
    intro i member
    have below := List.mem_range.mp member
    rw [firsts i below, nexts i below]
  unfold mtlExtmapSeek
  dsimp only
  rw [found]
  cases present : (List.range maxExtentsPerFile).find? fun iExtent =>
      decide (mtlExtmapFirstlblock map' iExtent ≤ lblock ∧
        lblock < map'.extentsNextlblock iExtent) with
  | none => exact ⟨rfl, fun no => Bool.noConfusion no⟩
  | some i =>
    have below := List.mem_range.mp (List.mem_of_find?_eq_some present)
    refine ⟨rfl, fun _ => ?_⟩
    simp only [Extmap.moveTo_currentPblock, firsts i below, begins i below]

/-- `mtl_extmap_seek` fails behind the last block. -/
theorem mtlExtmapSeek_behind {extents : List Segment} (bound : total extents < 2 ^ 64) {l : Nat}
    (behind : total extents ≤ l) :
    (mtlExtmapSeek (mtlExtmapLoad (mapExtents extents)) l).2 = false := by
  have none : ((List.range maxExtentsPerFile).find? fun iExtent =>
      decide (mtlExtmapFirstlblock (mtlExtmapLoad (mapExtents extents)) iExtent ≤ l ∧
        l < (mtlExtmapLoad (mapExtents extents)).extentsNextlblock iExtent)) = none := by
    rw [List.find?_eq_none]
    intro i _
    have next : (mtlExtmapLoad (mapExtents extents)).extentsNextlblock i =
        total (extents.take (i + 1)) := lastBlock_mapExtents bound (i + 1)
    have whole := congrArg total (List.take_append_drop (i + 1) extents)
    rw [total_append] at whole
    rw [next, decide_eq_true_eq]
    omega
  unfold mtlExtmapSeek
  dsimp only
  rw [none]

/-- Seeking in a map that holds a list of extents is translating a block with the list. -/
theorem mtlExtmapSeek_holdsBetween {extents : List Segment} {map : Extmap}
    (holds : map.HoldsBetween extents 0 maxExtentsPerFile)
    (few : extents.length ≤ maxExtentsPerFile) (bound : total extents < 2 ^ 64) (l : Nat) :
    ((mtlExtmapSeek map l).2 = true ↔ l < total extents) ∧
      ∀ x, locate extents l = some x → (mtlExtmapSeek map l).1.currentPblock = u64 x := by
  obtain ⟨same, pblock⟩ := @mtlExtmapSeek_congr map (mtlExtmapLoad (mapExtents extents))
    (fun i below => (holds i (Nat.zero_le i) below).1)
    (fun i below => (holds i (Nat.zero_le i) below).2.2) l
  rw [same]
  rcases Nat.lt_or_ge l (total extents) with inside | behind
  · obtain ⟨before, s, rest, offset, rfl, rfl, within⟩ := exists_split inside
    have seek := mtlExtmapSeek_split (holds_load (before ++ s :: rest)) few bound within
    rw [seek] at pblock ⊢
    refine ⟨⟨fun _ => inside, fun _ => rfl⟩, ?_⟩
    intro x located
    rw [locate_split within] at located
    cases located
    exact pblock rfl
  · rw [mtlExtmapSeek_behind bound behind]
    refine ⟨⟨fun no => Bool.noConfusion no, fun inside => by omega⟩, ?_⟩
    intro x located
    have inside := lt_total located
    omega

/-! ## The job -/

/-- The list of extents, filled up with zeros. -/
def padded (extents : List Segment) (i : Nat) : Segment := extents[i]?.getD ⟨0, 0⟩

theorem mapExtents_eq_padded {extents : List Segment}
    (starts : ∀ extent ∈ extents, extent.start < 2 ^ 64) (bound : total extents < 2 ^ 64) (i : Nat) :
    mapExtents extents i = padded extents i := by
  unfold mapExtents padded
  cases found : extents[i]? with
  | none => rfl
  | some extent =>
    have member := List.mem_of_getElem? found
    have count : extent.count ≤ total extents :=
      List.le_sum_of_mem (List.mem_map_of_mem member)
    simp only [Option.getD_some, u64_of_lt (starts extent member),
      u64_of_lt (Nat.lt_of_le_of_lt count bound)]

theorem HoldsAt.behind_line {memIn : Nat → Nat} {address : Nat} {line rest : List Byte}
    (full : line.length = sizeofMembus) (holds : HoldsAt memIn address (line ++ rest)) :
    HoldsAt memIn (address + mfbIncrement) rest := by
  have next : mfbAddress (address + mfbIncrement) = mfbAddress address + 1 :=
    Nat.add_div_right address (by decide)
  intro k inside
  have read := holds (k + 1) (by
    rw [List.length_append, full, Nat.mul_add, Nat.mul_one, Nat.add_comm]
    exact Nat.add_le_add_left inside _)
  rw [next, Nat.add_assoc, Nat.add_comm 1 k, read, busLine, busLine, Nat.mul_add, Nat.mul_one,
    Nat.add_comm, ← List.drop_drop, List.drop_left' full]

theorem ExtmapSlot.ofValue_value (slot : ExtmapSlot) : ofValue slot.value = some slot := by
  cases slot <;> rfl

theorem length_header {unset : List Byte} (words : unset.length = 7 * 8) (slot : ExtmapSlot) :
    (beBytes 8 slot.value ++ unset).length = sizeofMembus := by
  rw [List.length_append, length_beBytes, words]
  rfl

theorem length_jobStruct {unset : List Byte} (words : unset.length = 7 * 8) (slot : ExtmapSlot)
    (extents : List Segment) : (jobStruct unset slot extents).length = 64 + 64 * 128 := by
  have table := length_extentTable extents
  unfold extentTable at table
  rw [jobStruct, List.length_append, length_header words, table]
  rfl

/-- `action_map` loads the map of the slot in the job. -/
theorem actionMap_jobStruct {unset : List Byte} (words : unset.length = 7 * 8) {slot : ExtmapSlot}
    {extents : List Segment} {memIn : Nat → Nat} {jobAddress : Nat}
    (holds : HoldsAt memIn jobAddress (jobStruct unset slot extents)) (maps : ExtmapFile) :
    actionMap maps memIn jobAddress = (Function.update maps slot
      (mtlExtmapLoadLines (maps slot) (u64 (jobAddress + mfbIncrement)) memIn), .success) := by
  have size : sizeofMembus = 64 := rfl
  have header := length_header words slot
  have line : memIn (mfbAddress jobAddress) = ofLeBytes (beBytes 8 slot.value ++ unset) := by
    have read := holds 0 (by
      rw [jobStruct, List.length_append, header]
      omega)
    rw [Nat.add_zero] at read
    rw [read, busLine, Nat.mul_zero, List.drop_zero, jobStruct, List.take_left' header]
  have word : mtlGet64be 0 (memIn (mfbAddress jobAddress)) = slot.value := by
    rw [line, mtlGet64be_ofLeBytes (by rw [header, size]; omega), List.drop_zero,
      List.take_left' (length_beBytes 8 _), ofBeBytes_beBytes]
    cases slot <;> rfl
  unfold actionMap
  dsimp only
  rw [word, ExtmapSlot.ofValue_value, loadSlot]

/-- The map of the slot holds the extents of the job, and a block is translated as the list of
extents does. -/
theorem map_transfer_lossless {slot : ExtmapSlot} {extents : List Segment}
    (few : extents.length ≤ maxExtentsPerFile)
    (starts : ∀ extent ∈ extents, extent.start < 2 ^ 64) (bound : total extents < 2 ^ 64)
    {unset job : List Byte} (words : unset.length = 7 * 8)
    (built : job = FileDataSinkContext.mapExtents unset slot extents ∨
      job = FileDataSourceContext.mapExtents unset slot extents)
    {memIn : Nat → Nat} {jobAddress : Nat} (inMemory : jobAddress + job.length ≤ 2 ^ 64)
    (holds : HoldsAt memIn jobAddress job) (maps : ExtmapFile) :
    (actionMap maps memIn jobAddress).2 = .success ∧
      (∀ other, other ≠ slot → (actionMap maps memIn jobAddress).1 other = maps other) ∧
      (∀ i < maxExtentsPerFile,
        ((actionMap maps memIn jobAddress).1 slot).extentsBegin i = (padded extents i).start ∧
        ((actionMap maps memIn jobAddress).1 slot).extentsCount i = (padded extents i).count ∧
        ((actionMap maps memIn jobAddress).1 slot).extentsNextlblock i =
          total (extents.take (i + 1))) ∧
      ∀ l, ((mtlExtmapSeek ((actionMap maps memIn jobAddress).1 slot) l).2 = true ↔
          l < total extents) ∧
        ∀ x, locate extents l = some x →
          (mtlExtmapSeek ((actionMap maps memIn jobAddress).1 slot) l).1.currentPblock = u64 x := by
  have job_eq : job = jobStruct unset slot extents := by
    rcases built with rfl | rfl <;> rfl
  subst job_eq
  have length := length_jobStruct words slot extents
  have step : mfbIncrement = 64 := rfl
  have address : u64 (jobAddress + mfbIncrement) = jobAddress + mfbIncrement := by
    apply u64_of_lt
    rw [step]
    omega
  have loaded := mtlExtmapLoadLines_agrees (holds.behind_line (length_header words slot))
    (by rw [step]; omega) (maps slot)
  rw [actionMap_jobStruct words holds, address]
  dsimp only
  rw [Function.update_self]
  refine ⟨rfl, ?_, ?_, ?_⟩
  · intro other different
    exact Function.update_of_ne different _ _
  · intro i below
    have entry := loaded i (Nat.zero_le i) below
    rw [mapExtents_eq_padded starts bound, lastBlock_mapExtents bound] at entry
    exact entry
  · exact mtlExtmapSeek_holdsBetween loaded few bound

/-- A file of two extents. -/
def twoExtents : List Segment := [⟨10, 3⟩, ⟨40, 2⟩]

/-- Its job for writing to NVMe. -/
def twoExtentsJob : List Byte :=
  FileDataSinkContext.mapExtents (List.replicate (7 * 8) (byte 170)) .nvmeWrite twoExtents

/-- The maps after the job; they were empty before. -/
def twoExtentsMaps : ExtmapFile :=
  (actionMap (fun _ => mtlExtmapLoad (mapExtents [])) (busLine twoExtentsJob) 0).1

/-- Block four of the file is block 41 of the device, and there is no block five. -/
theorem map_transfer_lossless_twoExtents :
    (mtlExtmapSeek (twoExtentsMaps .nvmeWrite) 4).1.currentPblock = 41 ∧
      ¬ (mtlExtmapSeek (twoExtentsMaps .nvmeWrite) 5).2 = true := by
  have words : (List.replicate (7 * 8) (byte 170)).length = 7 * 8 := List.length_replicate
  have starts : ∀ extent ∈ twoExtents, extent.start < 2 ^ 64 := by
    intro extent member
    rcases List.mem_pair.mp member with rfl | rfl <;> decide
  have inMemory : 0 + twoExtentsJob.length ≤ 2 ^ 64 := by
    rw [twoExtentsJob, FileDataSinkContext.mapExtents, length_jobStruct words]
    decide
  have few : twoExtents.length ≤ maxExtentsPerFile := by decide
  have bound : total twoExtents < 2 ^ 64 := by decide
  have built : twoExtentsJob =
      FileDataSinkContext.mapExtents (List.replicate (7 * 8) (byte 170)) .nvmeWrite twoExtents ∨
      twoExtentsJob = FileDataSourceContext.mapExtents (List.replicate (7 * 8) (byte 170))
        .nvmeWrite twoExtents := by
    left
    rw [twoExtentsJob]
  obtain ⟨-, -, -, seek⟩ := map_transfer_lossless few starts bound words built inMemory
    (holdsAt_zero twoExtentsJob) (fun _ => mtlExtmapLoad (mapExtents []))
  unfold twoExtentsMaps
  constructor
  · exact (seek 4).2 41 rfl
  · rw [(seek 5).1]
    decide

end MetalFs.Fpga
