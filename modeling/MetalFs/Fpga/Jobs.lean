import MetalFs.Fpga.DataPath
import MetalFs.Fpga.ExtmapTransfer

/-!
# Map and run jobs

The jobs that move data, as `process_action` of `mtl_jobs.cpp` executes them: `Map` loads the extents
of a file from a job structure in host memory, and `RunOperators` streams the bytes of a source
through the operators into a sink.

`executed_file` and `executed_host` say what a run job does to a DRAM file and to host memory.
-/

namespace MetalFs.Fpga

open Segments

/-! ## Maps that are the same to the cursor -/

/-- The maps have the same entries, and their cursors are at the same place. -/
structure Extmap.Agrees (map map' : Extmap) : Prop where
  extentsBegin : ∀ i < maxExtentsPerFile, map.extentsBegin i = map'.extentsBegin i
  extentsCount : ∀ i < maxExtentsPerFile, map.extentsCount i = map'.extentsCount i
  extentsNextlblock : ∀ i < maxExtentsPerFile, map.extentsNextlblock i = map'.extentsNextlblock i
  currentExtent : map.currentExtent = map'.currentExtent
  currentPblock : map.currentPblock = map'.currentPblock
  inside : map'.currentExtent < maxExtentsPerFile

namespace Extmap.Agrees

variable {map map' : Extmap}

theorem moveTo (agrees : map.Agrees map') {i : Nat} (below : i < maxExtentsPerFile) (p : Nat) :
    (map.moveTo i p).Agrees (map'.moveTo i p) :=
  ⟨agrees.extentsBegin, agrees.extentsCount, agrees.extentsNextlblock, rfl, rfl, below⟩

theorem seek (agrees : map.Agrees map') (lblock : Nat) :
    (mtlExtmapSeek map lblock).1.Agrees (mtlExtmapSeek map' lblock).1 := by
  have firsts : ∀ i < maxExtentsPerFile,
      mtlExtmapFirstlblock map i = mtlExtmapFirstlblock map' i := by
    intro i below
    unfold mtlExtmapFirstlblock
    rw [agrees.extentsNextlblock (i - 1) (by omega)]
  have found : ((List.range maxExtentsPerFile).find? fun iExtent =>
      decide (mtlExtmapFirstlblock map iExtent ≤ lblock ∧ lblock < map.extentsNextlblock iExtent)) =
      (List.range maxExtentsPerFile).find? fun iExtent =>
      decide (mtlExtmapFirstlblock map' iExtent ≤ lblock ∧
        lblock < map'.extentsNextlblock iExtent) := by
    refine List.find?_congr ?_
    intro i member
    have below := List.mem_range.mp member
    rw [firsts i below, agrees.extentsNextlblock i below]
  unfold mtlExtmapSeek
  dsimp only
  rw [found]
  cases present : (List.range maxExtentsPerFile).find? fun iExtent =>
      decide (mtlExtmapFirstlblock map' iExtent ≤ lblock ∧
        lblock < map'.extentsNextlblock iExtent) with
  | none => exact agrees
  | some i =>
    have below := List.mem_range.mp (List.mem_of_find?_eq_some present)
    dsimp only
    rw [firsts i below, agrees.extentsBegin i below]
    exact agrees.moveTo below _

theorem next (agrees : map.Agrees map') : (mtlExtmapNext map).Agrees (mtlExtmapNext map') := by
  have positive : 0 < maxExtentsPerFile := by decide
  have wrapped := Nat.mod_lt (map'.currentExtent + 1) positive
  unfold mtlExtmapNext
  rw [agrees.currentExtent, agrees.currentPblock, agrees.extentsBegin _ agrees.inside,
    agrees.extentsCount _ agrees.inside]
  dsimp only
  split
  · exact agrees.moveTo agrees.inside _
  · rw [agrees.extentsBegin _ wrapped]
    exact agrees.moveTo wrapped _

end Extmap.Agrees

/-- With a DRAM map the elements depend on the entries and the cursor only. -/
theorem issueLoop_congr {T : TransferType} {transfer : Address} (dram : transfer.map = .dram)
    {fuel bytes : Nat} {maps maps' : Extmaps} (agrees : maps.dram.Agrees maps'.dram) :
    (issueLoop T transfer fuel bytes maps).partialTransfers =
      (issueLoop T transfer fuel bytes maps').partialTransfers := by
  induction fuel generalizing bytes maps maps' with
  | zero => rfl
  | succ fuel ih =>
    have element : partialTransfer T transfer maps bytes = partialTransfer T transfer maps' bytes := by
      simp only [partialTransfer, translate, dram, blockAddress, mtlExtmapPblock,
        agrees.currentPblock]
    have next : (maps.next transfer.map).dram.Agrees (maps'.next transfer.map).dram := by
      rw [dram]
      exact agrees.next
    unfold issueLoop
    split
    · dsimp only
      rw [element, ih next]
    · rfl

theorem issuePartialTransfers_congr {T : TransferType} {transfer : Address}
    (dram : transfer.map = .dram) {maps maps' : Extmaps} (agrees : maps.dram.Agrees maps'.dram) :
    (issuePartialTransfers T transfer maps).partialTransfers =
      (issuePartialTransfers T transfer maps').partialTransfers := by
  have sought : (maps.seek transfer).dram.Agrees (maps'.seek transfer).dram := by
    simp only [Extmaps.seek, dram]
    exact agrees.seek (transfer.addr / storageBlockSize)
  unfold issuePartialTransfers
  exact issueLoop_congr dram sought

/-! ## The jobs -/

/-- The memory behind the bus and the extent maps of the FPGA. -/
structure Card where
  bus : Bus
  extmaps : ExtmapFile

/-- A `Map` job for a slot was successful: its structure, with whatever the allocation left in the
words that are not written, was on the lines at its address. -/
def Mapped (slot : ExtmapSlot) (extents : List Segment) (maps maps' : ExtmapFile) : Prop :=
  ∃ unset memIn jobAddress, unset.length = 7 * 8 ∧
    jobAddress + (jobStruct unset slot extents).length ≤ 2 ^ 64 ∧
    HoldsAt memIn jobAddress (jobStruct unset slot extents) ∧
    actionMap maps memIn jobAddress = (maps', .success)

/-- `dram_read_extmap` and `nvme_read_extmap`. -/
def ExtmapFile.read (maps : ExtmapFile) : Extmaps := ⟨maps .cardDRAMRead, maps .nvmeRead⟩

/-- `dram_write_extmap` and `nvme_write_extmap`. -/
def ExtmapFile.write (maps : ExtmapFile) : Extmaps := ⟨maps .cardDRAMWrite, maps .nvmeWrite⟩

/-- A `RunOperators` job with enabled input and output, for a source and a sink that are not on NVMe
and do not overlap: the packet of the source goes through `operators`, and what comes out is written
to the sink.  What of it is longer than the sink stays in the stream, which is no part of the card
here; the results about several jobs ask for outputs that fit. -/
def Executed (mover : Datamover) (operators : List Byte → List Byte) (source destination : Address)
    (card card' : Card) (bytesWritten : Nat) : Prop :=
  ∃ commands written, loadData source card.extmaps.read = some ([], commands) ∧
    WriteRun mover (issuePartialTransfers .write destination card.extmaps.write).partialTransfers
      card.bus (operators (mover.stream card.bus commands)) written card'.bus ∧
    bytesWritten = written.size ∧
    card'.extmaps = Function.update (Function.update card.extmaps .cardDRAMRead
        (issuePartialTransfers .read source card.extmaps.read).extmaps.dram) .cardDRAMWrite
        (issuePartialTransfers .write destination card.extmaps.write).extmaps.dram

section Maps

variable {slot : ExtmapSlot} {extents : List Segment} {maps maps' : ExtmapFile}

/-- The map of the slot has the extents of the job and its cursor at the first block. -/
theorem Mapped.agrees (mapped : Mapped slot extents maps maps') :
    (maps' slot).Agrees (mtlExtmapLoad (mapExtents extents)) := by
  obtain ⟨unset, memIn, jobAddress, words, inMemory, holds, run⟩ := mapped
  have length := length_jobStruct words slot extents
  have step : mfbIncrement = 64 := rfl
  have address : u64 (jobAddress + mfbIncrement) = jobAddress + mfbIncrement := by
    rw [u64_of_lt]
    rw [step]
    omega
  have loaded := mtlExtmapLoadLines_agrees (holds.behind_line (length_header words slot))
    (by rw [step]; omega) (maps slot)
  rw [actionMap_jobStruct words holds, address] at run
  have here : maps' slot = mtlExtmapLoadLines (maps slot) (jobAddress + mfbIncrement) memIn := by
    rw [← (Prod.mk.inj run).1, Function.update_self]
  rw [here]
  constructor
  · exact fun i below => (loaded i (Nat.zero_le i) below).1
  · exact fun i below => (loaded i (Nat.zero_le i) below).2.1
  · exact fun i below => (loaded i (Nat.zero_le i) below).2.2
  · rfl
  · exact (loaded 0 (Nat.zero_le 0) (by decide)).1
  · exact Nat.zero_lt_of_lt (show 0 < maxExtentsPerFile by decide)

theorem Mapped.others (mapped : Mapped slot extents maps maps') {other : ExtmapSlot}
    (different : other ≠ slot) : maps' other = maps other := by
  obtain ⟨unset, memIn, jobAddress, words, -, holds, run⟩ := mapped
  rw [actionMap_jobStruct words holds] at run
  rw [← (Prod.mk.inj run).1, Function.update_of_ne different]

/-- There are lines that hold a job. -/
theorem exists_mapped (slot : ExtmapSlot) (extents : List Segment) (maps : ExtmapFile) :
    ∃ maps', Mapped slot extents maps maps' := by
  have words : (List.replicate (7 * 8) (byte 0)).length = 7 * 8 := List.length_replicate
  have length := length_jobStruct words slot extents
  have holds := holdsAt_zero (jobStruct (List.replicate (7 * 8) (byte 0)) slot extents)
  refine ⟨_, _, _, 0, words, ?_, holds, actionMap_jobStruct words holds maps⟩
  rw [length]
  decide

end Maps

/-! ## Sources and sinks -/

/-- The bytes of a DRAM file. -/
def fileBytes (bus : Bus) (extents : List Segment) : List Byte :=
  gather (dramOf bus) (fileSegments extents)

/-- What a source puts on the stream. -/
def Provides (card : Card) (source : Address) (packet : List Byte) : Prop :=
  0 < source.size ∧ ∀ mover : Datamover, mover.Documented → ∃ commands,
    loadData source card.extmaps.read = some ([], commands) ∧
      mover.stream card.bus commands = packet

section Jobs

variable {mover : Datamover} {operators : List Byte → List Byte} {source destination : Address}
  {card card' : Card} {extents : List Segment} {maps : ExtmapFile} {bytesWritten : Nat}

/-- The commands of a map that was loaded by a job. -/
theorem Mapped.issued {T : TransferType} {slot : ExtmapSlot} (mapped : Mapped slot extents maps
    card.extmaps) {transfer : Address} (dram : transfer.map = .dram) {used : Extmaps}
    (uses : used.dram = card.extmaps slot) :
    (issuePartialTransfers T transfer used).partialTransfers =
      (issuePartialTransfers T transfer (loaded extents)).partialTransfers := by
  refine issuePartialTransfers_congr dram ?_
  rw [uses]
  exact mapped.agrees

theorem provides_file (mapped : Mapped .cardDRAMRead extents maps card.extmaps)
    (request : FileRequest source (loaded extents).dram extents) :
    Provides card source (((fileBytes card.bus extents).drop source.addr).take source.size) := by
  refine ⟨request.nonempty, ?_⟩
  intro mover documented
  obtain ⟨commands, load, stream, -⟩ := loadData_streams_request documented request card.bus
  have plain : source.type ≠ .nvme := by rw [request.type]; decide
  rw [loadData_eq request.nonempty plain] at load
  rw [loadData_eq request.nonempty plain, mapped.issued request.dram rfl]
  exact ⟨commands, load, stream⟩

theorem provides_host (card : Card) (request : HostRequest source) :
    Provides card source (fetch card.bus source.addr source.size) :=
  ⟨request.nonempty, fun _ documented =>
    loadData_streams_host documented request card.extmaps.read card.bus⟩

/-- A job that writes to a DRAM file returns.  The packet that comes out of the operators replaces
the bytes of the request, and no byte outside the file changes. -/
theorem executed_file (documented : mover.Documented) {packet : List Byte}
    (provides : Provides card source packet) (data : operators packet ≠ [])
    (mapped : Mapped .cardDRAMWrite extents maps card.extmaps)
    (request : FileRequest destination (loaded extents).dram extents) :
    (∃ card' bytesWritten, Executed mover operators source destination card card' bytesWritten) ∧
    ∀ card' bytesWritten, Executed mover operators source destination card card' bytesWritten →
      bytesWritten = min (operators packet).length destination.size ∧
      fileBytes card'.bus extents = splice (fileBytes card.bus extents) destination.addr
        ((operators packet).take destination.size) ∧
      ∀ y, (∀ s ∈ fileSegments extents, ∀ x, s.Contains x → y ≠ dramBaseOffset + x) →
        card'.bus y = card.bus y := by
  obtain ⟨commands, load, stream⟩ := provides.2 mover documented
  obtain ⟨returns, stores⟩ := writeData_replaces_request documented request card.bus data
  have issued : (issuePartialTransfers .write destination card.extmaps.write).partialTransfers = _ :=
    mapped.issued request.dram rfl
  constructor
  · obtain ⟨written, bus', run⟩ := returns
    exact ⟨⟨bus', _⟩, _, commands, written, load, by rw [issued, stream]; exact run, rfl, rfl⟩
  · rintro card' bytesWritten ⟨commands', written, load', run, rfl, -⟩
    rw [load] at load'
    cases load'
    rw [issued, stream] at run
    exact stores written card'.bus run

/-- The same for a sink in host memory. -/
theorem executed_host (documented : mover.Documented) {packet : List Byte}
    (provides : Provides card source packet) (data : operators packet ≠ [])
    (request : HostRequest destination) :
    (∃ card' bytesWritten, Executed mover operators source destination card card' bytesWritten) ∧
    ∀ card' bytesWritten, Executed mover operators source destination card card' bytesWritten →
      bytesWritten = min (operators packet).length destination.size ∧
      card'.bus = store card.bus destination.addr ((operators packet).take destination.size) := by
  obtain ⟨commands, load, stream⟩ := provides.2 mover documented
  obtain ⟨returns, stores⟩ :=
    writeData_replaces_host documented request card.extmaps.write card.bus data
  constructor
  · obtain ⟨written, bus', run⟩ := returns
    exact ⟨⟨bus', _⟩, _, commands, written, load, by rw [stream]; exact run, rfl, rfl⟩
  · rintro card' bytesWritten ⟨commands', written, load', run, rfl, -⟩
    rw [load] at load'
    cases load'
    rw [stream] at run
    exact stores written card'.bus run

end Jobs

end MetalFs.Fpga
