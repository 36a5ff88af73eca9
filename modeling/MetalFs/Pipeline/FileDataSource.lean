import MetalFs.Filesystem.Storage
import MetalFs.Fpga.PartialTransfers

/-!
# Streaming a file

A `FileDataSourceContext` hands a file to the FPGA chunk by chunk: in each round
`SnapPipelineRunner::run` transfers the current range, and `finalize` moves the
range on by its own size.  `PipelineLoop::run` repeats this until `endOfInput`.

The chunk size is clipped to the file once, in the constructor.  The last chunk of
a longer file is not: the ranges are the file exactly when it is a multiple of the
chunk size.
-/

namespace MetalFs.Pipeline

open Fpga Segments

/-- `DataSource`. -/
structure DataSource where
  address : Nat
  size : Nat
  addressType : AddressType
  mapType : MapType
deriving DecidableEq, Repr

/-- `DataSource::withSize`. -/
def DataSource.withSize (source : DataSource) (newSize : Nat) : DataSource :=
  { source with size := newSize }

/-- `DataSource::address`: the size is cast to 32 bits. -/
def DataSource.toAddress (source : DataSource) : Address where
  addr := source.address
  size := source.size % 2 ^ 32
  type := source.addressType
  map := source.mapType

/-- `FileDataSourceContext`, for an inode other than zero. -/
structure FileDataSourceContext where
  dataSource : DataSource
  fileLength : Nat
  extents : List FileExtent

namespace FileDataSourceContext

/-- The constructor; `none` stands for the exception. -/
def create (db : Db) (addressType : AddressType) (mapType : MapType)
    (inodeId offset size : Nat) : Option FileDataSourceContext :=
  match mtlLoadExtentList db inodeId with
  | .error _ => none
  | .ok (extents, fileLength) =>
    let dataSource : DataSource := ⟨offset, size, addressType, mapType⟩
    some
      { dataSource :=
          dataSource.withSize (u64 (min (u64 (offset + size)) fileLength + 2 ^ 64 - offset))
        fileLength := fileLength
        extents := extents }

/-- `endOfInput`. -/
def endOfInput (context : FileDataSourceContext) : Bool :=
  context.fileLength ≤
    u64 (context.dataSource.toAddress.addr + context.dataSource.toAddress.size)

/-- `finalize`: advance the offset. -/
def finalize (context : FileDataSourceContext) : FileDataSourceContext :=
  let address := context.dataSource.toAddress
  { context with
    dataSource := ⟨u64 (address.addr + address.size), address.size, address.type, address.map⟩ }

end FileDataSourceContext

/-- What a round of `SnapPipelineRunner::run` does with its data source. -/
structure Round where
  handed : Option Address
  endOfInput : Bool
  dataSource : FileDataSourceContext

/-- `SnapPipelineRunner::run`; `none` stands for the exception of `configure`. -/
def snapPipelineRunnerRun (dataSource : FileDataSourceContext) : Option Round :=
  if dataSource.extents.isEmpty then none
  else
    let address := dataSource.dataSource.toAddress
    some
      { handed := if 0 < address.size then some address else none
        endOfInput := dataSource.endOfInput
        dataSource := dataSource.finalize }

/-- The loop of `PipelineLoop::run`, with the ranges it hands to the FPGA; `none` if it
is still running when the fuel is used up. -/
def pipelineLoopRun : Nat → FileDataSourceContext → Option (List Segment)
  | 0, _ => none
  | fuel + 1, dataSource =>
    (snapPipelineRunnerRun dataSource).bind fun round =>
      let later := if round.endOfInput then some [] else pipelineLoopRun fuel round.dataSource
      later.map fun later =>
        (round.handed.toList.map fun address => ⟨address.addr, address.size⟩) ++ later

/-- The ranges follow each other, do not overlap, and are exactly the file. -/
structure StreamsFile (ranges : List Segment) (fileLength : Nat) : Prop where
  consecutive : ranges.IsChain fun range next => next.start = range.start + range.count
  disjoint : ranges.Pairwise Segment.Disjoint
  union : ∀ byte, (∃ range ∈ ranges, range.Contains byte) ↔ byte < fileLength

/-! ## The rounds -/

section Rounds

variable {context : FileDataSourceContext} {fuel : Nat} {ranges : List Segment}

/-- One round of the loop, from the size the FPGA sees. -/
theorem pipelineLoopRun_succ (loaded : context.extents ≠ []) :
    pipelineLoopRun (fuel + 1) context =
      (if context.endOfInput then some [] else pipelineLoopRun fuel context.finalize).map
        ((if 0 < context.dataSource.toAddress.size then
          [⟨context.dataSource.toAddress.addr, context.dataSource.toAddress.size⟩] else []) ++ ·) := by
  rw [pipelineLoopRun]
  unfold snapPipelineRunnerRun
  rw [if_neg (by simpa using loaded)]
  simp only [Option.bind_some]
  congr 1
  funext later
  split <;> rfl

theorem finalize_size :
    context.finalize.dataSource.toAddress.size = context.dataSource.toAddress.size := by
  unfold FileDataSourceContext.finalize DataSource.toAddress
  exact Nat.mod_mod _ _

/-- All ranges have the size of the first one, which is where the context is. -/
theorem ranges_uniform (loaded : context.extents ≠ [])
    (nonempty : 0 < context.dataSource.toAddress.size)
    (run : pipelineLoopRun fuel context = some ranges) :
    (∀ range ∈ ranges, range.count = context.dataSource.toAddress.size) ∧
      ∃ later, ranges = ⟨context.dataSource.toAddress.addr, context.dataSource.toAddress.size⟩ ::
        later := by
  induction fuel generalizing context ranges with
  | zero => cases run
  | succ fuel ih =>
    rw [pipelineLoopRun_succ loaded, if_pos nonempty] at run
    obtain ⟨later, rest, rfl⟩ := Option.map_eq_some_iff.mp run
    refine ⟨?_, later, rfl⟩
    intro range member
    rcases List.mem_cons.mp member with rfl | member
    · rfl
    · cases ended : context.endOfInput with
      | true =>
        rw [ended, if_pos rfl] at rest
        cases rest
        cases member
      | false =>
        simp only [ended, Bool.false_eq_true, if_false] at rest
        have uniform := @ih context.finalize _ loaded (by rw [finalize_size]; exact nonempty) rest
        rw [uniform.1 range member, finalize_size]

theorem range_eq {range : Segment} {start size : Nat} (startEq : range.start = start)
    (countEq : range.count = size) : range = ⟨start, size⟩ := by
  rw [← startEq, ← countEq]

/-- Consecutive ranges of one size cover a multiple of it. -/
theorem uniform_union {size start : Nat} {later : List Segment}
    (uniform : ∀ range ∈ later, range.count = size)
    (consecutive : (⟨start, size⟩ :: later).IsChain fun (range next : Segment) =>
      next.start = range.start + range.count) (byte : Nat) :
    (∃ range ∈ (⟨start, size⟩ : Segment) :: later, range.Contains byte) ↔
      start ≤ byte ∧ byte < start + (later.length + 1) * size := by
  induction later generalizing start with
  | nil => simp [Segment.Contains]
  | cons next later ih =>
    obtain ⟨follows, rest⟩ := List.isChain_cons_cons.mp consecutive
    obtain rfl := range_eq follows (uniform next List.mem_cons_self)
    have tail := ih (fun range member => uniform range (List.mem_cons_of_mem _ member)) rest
    rw [List.exists_mem_cons_iff, tail, List.length_cons, Nat.add_mul (later.length + 1)]
    simp only [Segment.Contains]
    omega

/-- Consecutive ranges do not overlap. -/
theorem uniform_disjoint {size start : Nat} {later : List Segment}
    (uniform : ∀ range ∈ later, range.count = size)
    (consecutive : (⟨start, size⟩ :: later).IsChain fun (range next : Segment) =>
      next.start = range.start + range.count) :
    (⟨start, size⟩ :: later).Pairwise Segment.Disjoint := by
  induction later generalizing start with
  | nil => exact List.pairwise_singleton _ _
  | cons next later ih =>
    obtain ⟨follows, rest⟩ := List.isChain_cons_cons.mp consecutive
    obtain rfl := range_eq follows (uniform next List.mem_cons_self)
    have uniform' := fun range member => uniform range (List.mem_cons_of_mem _ member)
    refine List.pairwise_cons.mpr ⟨?_, ih uniform' rest⟩
    intro range member byte inFirst inRange
    have behind := ((uniform_union uniform' rest byte).mp ⟨range, member, inRange⟩).1
    have before : byte < start + size := inFirst.2
    dsimp only at behind
    omega

/-- The rounds over a file of `n` more chunks. -/
theorem pipelineLoopRun_chunks {size addr n : Nat} (loaded : context.extents ≠ [])
    (sizeEq : context.dataSource.toAddress.size = size)
    (addrEq : context.dataSource.toAddress.addr = addr) (nonempty : 0 < size)
    (whole : context.fileLength = addr + (n + 1) * size) (bound : context.fileLength < 2 ^ 64) :
    ∃ later, pipelineLoopRun (n + 1) context = some (⟨addr, size⟩ :: later) ∧
      (⟨addr, size⟩ :: later).IsChain (fun (range next : Segment) =>
        next.start = range.start + range.count) ∧
      (∀ range ∈ later, range.count = size) ∧ later.length = n := by
  induction n generalizing context addr with
  | zero =>
    have ended : context.endOfInput = true := by
      simp only [FileDataSourceContext.endOfInput, decide_eq_true_eq, sizeEq, addrEq]
      rw [u64_of_lt (by omega)]
      omega
    refine ⟨[], ?_, List.isChain_singleton _, by simp, rfl⟩
    rw [pipelineLoopRun_succ loaded, ended, if_pos rfl, sizeEq, addrEq, if_pos nonempty]
    rfl
  | succ n ih =>
    rw [Nat.add_mul (n + 1)] at whole
    have positive : 0 < (n + 1) * size := Nat.mul_pos (Nat.succ_pos n) nonempty
    have running : context.endOfInput = false := by
      simp only [FileDataSourceContext.endOfInput, decide_eq_false_iff_not, sizeEq, addrEq]
      rw [u64_of_lt (by omega)]
      omega
    have addrNext : context.finalize.dataSource.toAddress.addr = addr + size := by
      have : context.finalize.dataSource.toAddress.addr = u64 (addr + size) := by
        rw [← sizeEq, ← addrEq]
        rfl
      rw [this, u64_of_lt (by omega)]
    obtain ⟨later, run, consecutive, uniform, length⟩ :=
      @ih context.finalize (addr + size) loaded (finalize_size.trans sizeEq) addrNext
        (show context.fileLength = _ by omega) bound
    refine ⟨⟨addr + size, size⟩ :: later, ?_, List.isChain_cons_cons.mpr ⟨rfl, consecutive⟩, ?_, ?_⟩
    · rw [pipelineLoopRun_succ loaded, running, sizeEq, addrEq, if_pos nonempty, run]
      rfl
    · intro range member
      rcases List.mem_cons.mp member with rfl | member
      · rfl
      · exact uniform range member
    · rw [List.length_cons, length]

/-- An empty chunk never gets to the end of the file. -/
theorem pipelineLoopRun_empty (loaded : context.extents ≠ [])
    (empty : context.dataSource.toAddress.size = 0)
    (inside : u64 context.dataSource.toAddress.addr < context.fileLength) (fuel : Nat) :
    pipelineLoopRun fuel context = none := by
  induction fuel generalizing context with
  | zero => rfl
  | succ fuel ih =>
    have running : context.endOfInput = false := by
      simp only [FileDataSourceContext.endOfInput, decide_eq_false_iff_not, empty, Nat.add_zero]
      omega
    have addrNext : context.finalize.dataSource.toAddress.addr =
        u64 context.dataSource.toAddress.addr := by
      simp only [FileDataSourceContext.finalize, empty, Nat.add_zero]
      rfl
    have next : pipelineLoopRun fuel context.finalize = none := by
      apply @ih context.finalize loaded (finalize_size.trans empty)
      rw [addrNext, u64_of_lt (u64_lt _)]
      exact inside
    rw [pipelineLoopRun_succ loaded, running, next]
    rfl

end Rounds

/-! ## The whole file -/

section File

/-- The context for a file, with its size clipped to the length. -/
def fileContext (addressType : AddressType) (mapType : MapType) (size length : Nat)
    (extents : List FileExtent) : FileDataSourceContext :=
  ⟨⟨0, min size length, addressType, mapType⟩, length, extents⟩

variable {db : Db} {inodeId length size : Nat} {extents : List FileExtent}
  {addressType : AddressType} {mapType : MapType}

theorem create_eq (file : mtlLoadExtentList db inodeId = .ok (extents, length))
    (bound : length < 2 ^ 64) (chunkBound : size < 2 ^ 64) :
    FileDataSourceContext.create db addressType mapType inodeId 0 size =
      some (fileContext addressType mapType size length extents) := by
  have clipped : u64 (min (u64 (0 + size)) length + 2 ^ 64 - 0) = min size length := by
    rw [Nat.zero_add, u64_of_lt chunkBound]
    unfold u64
    omega
  simp only [FileDataSourceContext.create, file, DataSource.withSize, clipped, fileContext]

/-- A loop that hands exactly the file to the FPGA does so in equal chunks. -/
theorem chunk_dvd_of_streams (loaded : extents ≠ []) (nonempty : 0 < length) {fuel : Nat}
    {ranges : List Segment}
    (run : pipelineLoopRun fuel (fileContext addressType mapType size length extents) = some ranges)
    (streams : StreamsFile ranges length) :
    0 < min size length % 2 ^ 32 ∧ min size length % 2 ^ 32 ∣ length := by
  have addrEq : (fileContext addressType mapType size length extents).dataSource.toAddress.addr = 0 :=
    rfl
  have sizeEq : (fileContext addressType mapType size length extents).dataSource.toAddress.size =
      min size length % 2 ^ 32 := rfl
  rcases Nat.eq_zero_or_pos (min size length % 2 ^ 32) with empty | positive
  · rw [pipelineLoopRun_empty loaded (sizeEq.trans empty) nonempty] at run
    cases run
  · refine ⟨positive, ?_⟩
    obtain ⟨uniform, later, rfl⟩ := ranges_uniform loaded (by rw [sizeEq]; exact positive) run
    rw [sizeEq] at uniform
    rw [addrEq, sizeEq] at streams
    have union := uniform_union (fun range member => uniform range (List.mem_cons_of_mem _ member))
      streams.consecutive
    have same : ∀ byte, byte < length ↔
        byte < (later.length + 1) * (min size length % 2 ^ 32) := by
      intro byte
      rw [← streams.union, union, Nat.zero_add]
      omega
    have atLength := same length
    have atEnd := same ((later.length + 1) * (min size length % 2 ^ 32))
    have whole : length = (later.length + 1) * (min size length % 2 ^ 32) := by omega
    exact Dvd.intro_left _ whole.symm

/-- Equal chunks are handed to the FPGA one after another. -/
theorem streams_of_chunk_dvd (loaded : extents ≠ []) (nonempty : 0 < length)
    (bound : length < 2 ^ 64) (positive : 0 < min size length % 2 ^ 32)
    (divides : min size length % 2 ^ 32 ∣ length) : ∃ fuel ranges,
      pipelineLoopRun fuel (fileContext addressType mapType size length extents) = some ranges ∧
        StreamsFile ranges length := by
  obtain ⟨n, whole⟩ := divides
  obtain ⟨m, rfl⟩ : ∃ m, n = m + 1 := by
    refine Nat.exists_eq_succ_of_ne_zero ?_
    intro zero
    rw [zero, Nat.mul_zero] at whole
    omega
  obtain ⟨later, run, consecutive, uniform, count⟩ :=
    @pipelineLoopRun_chunks (fileContext addressType mapType size length extents)
      (min size length % 2 ^ 32) 0 m loaded rfl rfl positive
      (by rw [Nat.zero_add, Nat.mul_comm]; exact whole) bound
  refine ⟨m + 1, _, run, consecutive, uniform_disjoint uniform consecutive, ?_⟩
  intro byte
  rw [uniform_union uniform consecutive, count, Nat.zero_add, Nat.mul_comm, ← whole]
  omega

end File

/-- The loop ends and has handed exactly the file to the FPGA if and only if the
chunk size, as the FPGA sees it, is not zero and divides the file length. -/
theorem file_streamed_iff_chunk_dvd {db : Db} {inodeId length size : Nat}
    {extents : List FileExtent} (addressType : AddressType) (mapType : MapType)
    (file : mtlLoadExtentList db inodeId = .ok (extents, length)) (loaded : extents ≠ [])
    (nonempty : 0 < length) (bound : length < 2 ^ 64) (chunkBound : size < 2 ^ 64) :
    (∃ context fuel ranges,
      FileDataSourceContext.create db addressType mapType inodeId 0 size = some context ∧
        pipelineLoopRun fuel context = some ranges ∧ StreamsFile ranges length) ↔
      0 < min size length % 2 ^ 32 ∧ min size length % 2 ^ 32 ∣ length := by
  have created := @create_eq db inodeId length size extents addressType mapType file bound chunkBound
  constructor
  · intro streamed
    obtain ⟨context, fuel, ranges, start, run, streams⟩ := streamed
    obtain rfl := Option.some.inj (created.symm.trans start)
    exact chunk_dvd_of_streams loaded nonempty run streams
  · intro condition
    obtain ⟨fuel, ranges, run, streams⟩ :=
      streams_of_chunk_dvd loaded nonempty bound condition.1 condition.2
    exact ⟨_, fuel, ranges, created, run, streams⟩

/-- A store with one file of one extent. -/
def fileDb (length : Nat) : Db :=
  mtlPutInode ⟨∅, ⟨∅, ∅⟩, none⟩ 1 ⟨.file, length, 0, 0, 0, 0, 0, 0o644⟩ (extentBytes [⟨0, 1024⟩])

/-- 128 MiB in chunks of 64 MiB. -/
theorem file_streamed_iff_chunk_dvd_fileDb : ∃ context fuel ranges,
    FileDataSourceContext.create (fileDb (2 ^ 27)) .nvme .nvme 1 0 (2 ^ 26) = some context ∧
      pipelineLoopRun fuel context = some ranges ∧ StreamsFile ranges (2 ^ 27) :=
  (file_streamed_iff_chunk_dvd .nvme .nvme
    (show mtlLoadExtentList (fileDb (2 ^ 27)) 1 = .ok ([⟨0, 1024⟩], 2 ^ 27) by decide +kernel)
    (by decide) (by decide) (by decide) (by decide)).mpr (by decide)

/-- Of a file of 100 MiB the second chunk of 64 MiB is read in full. -/
theorem longFile_not_streamed :
    mtlLoadExtentList (fileDb 104857600) 1 = .ok ([⟨0, 1024⟩], 104857600) ∧
    ¬ ∃ context fuel ranges,
      FileDataSourceContext.create (fileDb 104857600) .nvme .nvme 1 0 (2 ^ 26) = some context ∧
        pipelineLoopRun fuel context = some ranges ∧ StreamsFile ranges 104857600 := by
  have file : mtlLoadExtentList (fileDb 104857600) 1 = .ok ([⟨0, 1024⟩], 104857600) := by
    decide +kernel
  refine ⟨file, ?_⟩
  intro streamed
  obtain ⟨context, fuel, ranges, start, run, streams⟩ := streamed
  obtain rfl := Option.some.inj ((create_eq file (by decide) (by decide)).symm.trans start)
  have divides := (chunk_dvd_of_streams (by decide) (by decide) run streams).2
  exact absurd divides (by decide)

end MetalFs.Pipeline
