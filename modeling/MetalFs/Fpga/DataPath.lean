import MetalFs.Fpga.FromStreamDataflow
import MetalFs.Fpga.LayoutWalk
import MetalFs.Lib.Scatter

/-!
# The bytes that go through the DataMover

`load_data` and `write_data` of `mtl_op_mem.cpp` on the memory behind the bus: host memory, and the
DRAM of the card from `DRAMBaseOffset` on.  The DataMover is not part of the sources; `Documented`
says what a command does.

A request whose blocks are walked as `StaysInExtent` asks reads exactly its bytes of the file, and
writes a packet to exactly these bytes.
-/

namespace MetalFs.Fpga

open Segments

/-! ## The DataMover -/

/-- The memory behind the bus. -/
abbrev Bus := Nat → Byte

/-- An AXI DataMover: the bytes that a read command puts on the stream, and what a write command
does with the rest of a packet. -/
structure Datamover where
  mm2s : Bus → DatamoverCommand → List Byte
  s2mm : Bus → DatamoverCommand → List Byte → Bus × DatamoverIbttStatus

/-- The addresses of a command. -/
def DatamoverCommand.segment (command : DatamoverCommand) : Segment :=
  ⟨command.effectiveAddress, command.transferBytes⟩

/-- A read command reads its bytes.  A write command stores the bytes of the packet, up to its
length or to the end of the packet, and reports how many there were and whether the packet ended. -/
structure Datamover.Documented (mover : Datamover) : Prop where
  mm2s : ∀ bus command, 0 < command.transferBytes →
    mover.mm2s bus command = fetch bus command.effectiveAddress command.transferBytes
  s2mm : ∀ bus command packet, 0 < command.transferBytes → packet ≠ [] →
    mover.s2mm bus command packet =
      (store bus command.effectiveAddress (packet.take command.transferBytes),
        ⟨packet.length ≤ command.transferBytes, min packet.length command.transferBytes⟩)

/-- What a sequence of read commands puts on the stream. -/
def Datamover.stream (mover : Datamover) (bus : Bus) (commands : List DatamoverCommand) :
    List Byte :=
  commands.flatMap (mover.mm2s bus)

/-- What a sequence of write commands does with a packet, and the statuses. -/
def Datamover.accept (mover : Datamover) (bus : Bus) (packet : List Byte) :
    List DatamoverCommand → Bus × List DatamoverIbttStatus
  | [] => (bus, [])
  | command :: commands =>
    let (bus, status) := mover.s2mm bus command packet
    let later := mover.accept bus (packet.drop status.numBytesTransferred) commands
    (later.1, status :: later.2)

/-- A DataMover that does what is documented. -/
def plainDatamover : Datamover where
  mm2s bus command := fetch bus command.effectiveAddress command.transferBytes
  s2mm bus command packet :=
    (store bus command.effectiveAddress (packet.take command.transferBytes),
      ⟨packet.length ≤ command.transferBytes, min packet.length command.transferBytes⟩)

theorem plainDatamover_documented : plainDatamover.Documented :=
  ⟨fun _ _ _ => rfl, fun _ _ _ _ _ => rfl⟩

/-! ## Reading and writing -/

/-- `load_nvme_data`: its NVMe commands and the elements it passes on. -/
def loadNvmeData : List TransferElement → List Nat →
    Option (List NvmeCommand × List TransferElement)
  | [], _ => none
  | currentTransfer :: later, nvmeTransfers =>
    if currentTransfer.data.type = .nvme then
      match nvmeTransfers with
      | [] => none
      | nvmeAddress :: nvmeTransfers =>
        let dramAddress := u64 (nvmeDRAMBaseOffset + currentTransfer.data.address)
        let command := issueNvmeBlockTransferCommand nvmeAddress dramAddress
        let rest := if currentTransfer.last then some ([], [])
          else loadNvmeData later nvmeTransfers
        rest.map fun rest => (command :: rest.1, currentTransfer :: rest.2)
    else
      let rest := if currentTransfer.last then some ([], [])
        else loadNvmeData later nvmeTransfers
      rest.map fun rest => (rest.1, currentTransfer :: rest.2)

/-- `transfer_to_stream`: its commands; it takes one status for each. -/
def transferToStream : List TransferElement → Option (List DatamoverCommand)
  | [] => none
  | currentTransfer :: later =>
    let rest := if currentTransfer.last then some [] else transferToStream later
    rest.map fun rest => transferCommand currentTransfer :: rest

/-- `load_data`: the commands to the NVMe controller and to the DataMover. -/
def loadData (transfer : Address) (maps : Extmaps) :
    Option (List NvmeCommand × List DatamoverCommand) :=
  let issued := issuePartialTransfers .read transfer maps
  (loadNvmeData issued.partialTransfers issued.nvmeTransfers).bind fun ready =>
    (transferToStream ready.2).map fun commands => (ready.1, commands)

/-- A run of `transfer_from_stream` in which the DataMover answers the commands: what it returns,
and the memory afterwards. -/
structure WriteRun (mover : Datamover) (elements : List TransferElement) (bus : Bus)
    (packet : List Byte) (written : FromStream) (bus' : Bus) : Prop where
  stream : transferFromStream elements (mover.accept bus packet written.commands).2 false =
    some written
  memory : (mover.accept bus packet written.commands).1 = bus'

section Stages

variable {elements : List TransferElement}

theorem loadNvmeData_passes (ends : LastAtEnd elements)
    (plain : ∀ element ∈ elements, element.data.type ≠ .nvme) (nvmeTransfers : List Nat) :
    loadNvmeData elements nvmeTransfers = some ([], elements) := by
  induction elements with
  | nil => exact absurd rfl ends.1
  | cons element later ih =>
    unfold loadNvmeData
    rw [if_neg (plain element List.mem_cons_self)]
    rcases ends.head with ⟨last, rfl⟩ | ⟨more, ends'⟩
    · simp only [last, if_true, Option.map_some]
    · simp only [more, Bool.false_eq_true, if_false,
        ih ends' fun e member => plain e (List.mem_cons_of_mem _ member), Option.map_some]

/-- Only the last element is marked. -/
theorem LastAtEnd.flags (ends : LastAtEnd elements) : elements.map TransferElement.last =
    List.replicate (elements.length - 1) false ++ [true] := by
  induction elements with
  | nil => exact absurd rfl ends.1
  | cons element later ih =>
    rcases ends.head with ⟨last, rfl⟩ | ⟨more, ends'⟩
    · simp only [List.map_cons, last, List.map_nil]
      rfl
    · obtain ⟨n, count⟩ := Nat.exists_eq_succ_of_ne_zero
        (Nat.pos_iff_ne_zero.mp (List.length_pos_iff.mpr ends'.1))
      rw [List.map_cons, ih ends', more, List.length_cons, count]
      rfl

theorem transferToStream_eq (ends : LastAtEnd elements) :
    transferToStream elements = some (elements.map transferCommand) := by
  induction elements with
  | nil => exact absurd rfl ends.1
  | cons element later ih =>
    unfold transferToStream
    rcases ends.head with ⟨last, rfl⟩ | ⟨more, ends'⟩
    · simp only [last, if_true, Option.map_some, List.map_cons, List.map_nil]
    · simp only [more, Bool.false_eq_true, if_false, ih ends', Option.map_some, List.map_cons]

end Stages

/-! ## Commands as a layout -/

/-- The addresses of the elements, as the DataMover is given them. -/
def commandSegments (elements : List TransferElement) : List Segment :=
  elements.map fun element => (transferCommand element).segment

/-- The lengths fit into a command. -/
def Sized (elements : List TransferElement) : Prop :=
  ∀ element ∈ elements, 0 < element.data.size ∧ element.data.size < 2 ^ 23

section Commands

variable {mover : Datamover} {bus : Bus} {elements : List TransferElement} {packet : List Byte}

theorem transferCommand_bytes {element : TransferElement} (small : element.data.size < 2 ^ 23) :
    (transferCommand element).transferBytes = element.data.size := Nat.mod_eq_of_lt small

theorem Sized.tail {element : TransferElement} {later : List TransferElement}
    (sized : Sized (element :: later)) : Sized later :=
  fun e member => sized e (List.mem_cons_of_mem element member)

theorem total_commandSegments (sized : Sized elements) : total (commandSegments elements) =
    (elements.map fun element => element.data.size).sum := by
  induction elements with
  | nil => rfl
  | cons element later ih =>
    have here := transferCommand_bytes (sized element List.mem_cons_self).2
    rw [List.map_cons, List.sum_cons, ← ih sized.tail, ← here]
    exact total_cons _ _

/-- The commands read the bytes of their layout. -/
theorem stream_eq_gather (documented : mover.Documented) (sized : Sized elements) :
    mover.stream bus (elements.map transferCommand) = gather bus (commandSegments elements) := by
  induction elements with
  | nil => rfl
  | cons element later ih =>
    obtain ⟨positive, small⟩ := sized element List.mem_cons_self
    have bytes := transferCommand_bytes small
    have head := documented.mm2s bus (transferCommand element) (by rw [bytes]; exact positive)
    have tail := ih sized.tail
    unfold Datamover.stream at tail ⊢
    rw [List.map_cons, List.flatMap_cons, head, tail]
    rfl

/-- After the end of the packet no command is issued. -/
theorem transferFromStream_ended (ends : LastAtEnd elements) (dmSts : List DatamoverIbttStatus) :
    transferFromStream elements dmSts true = some ⟨[], elements.map zeroed, 0⟩ := by
  induction elements with
  | nil => exact absurd rfl ends.1
  | cons element later ih =>
    unfold transferFromStream
    rw [if_pos rfl]
    rcases ends.head with ⟨last, rfl⟩ | ⟨more, ends'⟩
    · simp only [last, if_true, Option.map_some, List.map_cons, List.map_nil, zeroed]
    · simp only [more, Bool.false_eq_true, if_false, ih ends', Option.map_some, List.map_cons,
        zeroed]

/-- The elements that are reached by `bytes` bytes of a packet. -/
def reached : List TransferElement → Nat → List TransferElement
  | [], _ => []
  | element :: later, bytes =>
    if bytes = 0 then [] else element :: reached later (bytes - element.data.size)

/-- All elements, with size zero from the end of the packet on. -/
def truncated : List TransferElement → Nat → List TransferElement
  | [], _ => []
  | element :: later, bytes =>
    (if bytes = 0 then zeroed element else element) :: truncated later (bytes - element.data.size)

theorem truncated_zero (elements : List TransferElement) :
    truncated elements 0 = elements.map zeroed := by
  induction elements with
  | nil => rfl
  | cons element later ih => rw [truncated, if_pos rfl, Nat.zero_sub, ih, List.map_cons]

theorem reached_zero (elements : List TransferElement) : reached elements 0 = [] := by
  cases elements <;> rfl

/-- The first element takes what it can, and the others get the rest of the packet. -/
theorem writeRun_cons_iff (documented : mover.Documented) {element : TransferElement}
    {later : List TransferElement} (sized : Sized (element :: later)) (nonempty : packet ≠ [])
    {written : FromStream} {bus' : Bus} :
    WriteRun mover (element :: later) bus packet written bus' ↔
      ∃ rest, written = ⟨transferCommand element :: rest.commands, element :: rest.out,
          u64 (min packet.length element.data.size + rest.size)⟩ ∧
        (mover.accept (store bus (transferCommand element).effectiveAddress
          (packet.take element.data.size)) (packet.drop element.data.size) rest.commands).1 = bus' ∧
        (if element.last then some ⟨[], [], 0⟩ else transferFromStream later
          (mover.accept (store bus (transferCommand element).effectiveAddress
            (packet.take element.data.size)) (packet.drop element.data.size) rest.commands).2
          (packet.length ≤ element.data.size)) = some rest := by
  obtain ⟨positive, small⟩ := sized element List.mem_cons_self
  have bytes := transferCommand_bytes small
  have first := documented.s2mm bus (transferCommand element) packet (by rw [bytes]; exact positive)
    nonempty
  have dropped : packet.drop (min packet.length element.data.size) =
      packet.drop element.data.size := by
    rcases Nat.le_total packet.length element.data.size with all | some
    · rw [Nat.min_eq_left all, List.drop_length, List.drop_of_length_le all]
    · rw [Nat.min_eq_right some]
  rw [bytes] at first
  have accepted : ∀ commands, mover.accept bus packet (transferCommand element :: commands) =
      ((mover.accept (store bus (transferCommand element).effectiveAddress
          (packet.take element.data.size)) (packet.drop element.data.size) commands).1,
        ⟨packet.length ≤ element.data.size, min packet.length element.data.size⟩ ::
        (mover.accept (store bus (transferCommand element).effectiveAddress
          (packet.take element.data.size)) (packet.drop element.data.size) commands).2) := by
    intro commands
    rw [Datamover.accept, first]
    dsimp only
    rw [dropped]
  constructor
  · rintro ⟨stream, memory⟩
    unfold transferFromStream at stream
    rw [if_neg Bool.false_ne_true] at stream
    cases commands : written.commands with
    | nil =>
      rw [commands] at stream
      cases stream
    | cons command more =>
      have same : command = transferCommand element := by
        cases answers : (mover.accept bus packet written.commands).2 with
        | nil =>
          rw [answers] at stream
          cases stream
        | cons status dmSts =>
          rw [answers] at stream
          obtain ⟨rest, -, result⟩ := Option.map_eq_some_iff.mp stream
          rw [← result] at commands
          exact (List.cons.inj commands).1.symm
      rw [commands, same, accepted] at stream memory
      obtain ⟨rest, again, result⟩ := Option.map_eq_some_iff.mp stream
      have tail : rest.commands = more := by
        rw [← result] at commands
        exact (List.cons.inj commands).2
      subst tail
      exact ⟨rest, result.symm, memory, again⟩
  · rintro ⟨rest, rfl, memory, again⟩
    constructor
    · unfold transferFromStream
      rw [if_neg Bool.false_ne_true]
      dsimp only
      rw [accepted]
      dsimp only
      rw [again]
      rfl
    · dsimp only
      rw [accepted]
      exact memory

/-- `transfer_from_stream` returns with one result, for the elements that the packet reaches, and
the packet is stored through the layout of the elements. -/
theorem writeRun_iff (documented : mover.Documented) (ends : LastAtEnd elements)
    (sized : Sized elements) (small : total (commandSegments elements) < 2 ^ 64)
    (nonempty : packet ≠ []) {written : FromStream} {bus' : Bus} :
    WriteRun mover elements bus packet written bus' ↔
      written = ⟨(reached elements packet.length).map transferCommand,
          truncated elements packet.length,
          min packet.length (total (commandSegments elements))⟩ ∧
        bus' = scatter bus (commandSegments elements) packet := by
  induction elements generalizing bus packet written bus' with
  | nil => exact absurd rfl ends.1
  | cons element later ih =>
    have bytes := transferCommand_bytes (sized element List.mem_cons_self).2
    have whole : total (commandSegments (element :: later)) =
        element.data.size + total (commandSegments later) := by
      rw [← bytes]
      exact total_cons _ _
    have stores : scatter bus (commandSegments (element :: later)) packet =
        scatter (store bus (transferCommand element).effectiveAddress
          (packet.take element.data.size)) (commandSegments later)
          (packet.drop element.data.size) := by
      rw [← bytes]
      rfl
    have positive := List.length_pos_iff.mpr nonempty
    rw [whole] at small
    rw [writeRun_cons_iff documented sized nonempty, stores, whole, reached, truncated,
      if_neg (Nat.pos_iff_ne_zero.mp positive), if_neg (Nat.pos_iff_ne_zero.mp positive)]
    rcases ends.head with ⟨last, rfl⟩ | ⟨more, ends'⟩
    · -- the last element: nothing is left to be issued
      simp only [last, if_true, Option.some.injEq]
      have sum : u64 (min packet.length element.data.size + 0) =
          min packet.length (element.data.size + total (commandSegments [])) := by
        rw [u64_of_lt (by omega)]
        rfl
      constructor
      · rintro ⟨rest, rfl, rfl, rfl⟩
        exact ⟨by rw [← sum]; rfl, rfl⟩
      · rintro ⟨rfl, rfl⟩
        exact ⟨⟨[], [], 0⟩, by rw [← sum]; rfl, rfl, rfl⟩
    · simp only [more, Bool.false_eq_true, if_false]
      rcases Nat.lt_or_ge element.data.size packet.length with long | short
      · -- the packet goes on behind the element
        have rest : packet.drop element.data.size ≠ [] := by
          rw [← List.length_pos_iff, List.length_drop]
          omega
        have again : ∀ {written bus'}, WriteRun mover later
            (store bus (transferCommand element).effectiveAddress
              (packet.take element.data.size)) (packet.drop element.data.size) written bus' ↔ _ :=
          fun {_ _} => ih ends' sized.tail (by omega) rest
        rw [List.length_drop] at again
        have sum : u64 (min packet.length element.data.size +
            min (packet.length - element.data.size) (total (commandSegments later))) =
            min packet.length (element.data.size + total (commandSegments later)) := by
          rw [u64_of_lt (by omega)]
          omega
        have goesOn : (decide (packet.length ≤ element.data.size)) = false :=
          decide_eq_false (Nat.not_le.mpr long)
        rw [goesOn]
        constructor
        · rintro ⟨result, rfl, memory, stream⟩
          obtain ⟨rfl, rfl⟩ := again.mp ⟨stream, memory⟩
          exact ⟨by rw [← sum]; rfl, rfl⟩
        · rintro ⟨rfl, rfl⟩
          obtain ⟨stream, memory⟩ := again.mpr ⟨rfl, rfl⟩
          exact ⟨_, by rw [← sum]; rfl, memory, stream⟩
      · -- the packet ends in the element
        have done : packet.drop element.data.size = [] := List.drop_of_length_le short
        have ended : decide (packet.length ≤ element.data.size) = true := decide_eq_true short
        have sum : u64 (min packet.length element.data.size + 0) =
            min packet.length (element.data.size + total (commandSegments later)) := by
          rw [u64_of_lt (by omega)]
          omega
        simp only [ended, transferFromStream_ended ends', Option.some.injEq, done, scatter_nil,
          Nat.sub_eq_zero_of_le short, reached_zero, truncated_zero]
        constructor
        · rintro ⟨result, rfl, memory, rfl⟩
          exact ⟨by rw [← sum]; rfl, memory.symm⟩
        · rintro ⟨rfl, rfl⟩
          exact ⟨_, by rw [← sum]; rfl, rfl, rfl⟩

end Commands

/-! ## Requests on a file -/

/-- The bytes of a file in the DRAM. -/
def fileSegments (extents : List Segment) : List Segment :=
  extents.map (Segment.scale storageBlockSize)

/-- The DRAM of the card behind the bus. -/
def dramOf (bus : Bus) : Nat → Byte := fun x => bus (dramBaseOffset + x)

/-- `num_blocks` of `PipelineStorage`. -/
def pipelineNumBlocks : Nat := 64 * 1024 * 1024

/-- A request for bytes of a DRAM file whose extents are loaded, on blocks that are walked as the
file has them. -/
structure FileRequest (transfer : Address) (map : Extmap) (extents : List Segment) : Prop where
  type : transfer.type = .cardDRAM
  dram : transfer.map = .dram
  holds : map.Holds extents
  short : extents.length ≤ maxExtentsPerFile
  device : ∀ s ∈ extents, s.start + s.count ≤ pipelineNumBlocks
  disjoint : extents.Pairwise Segment.Disjoint
  nonempty : 0 < transfer.size
  inside : transfer.addr + transfer.size ≤ total extents * storageBlockSize
  stays : StaysInExtent extents (transfer.addr / storageBlockSize) transfer.blockSpan

section Request

variable {T : TransferType} {transfer : Address} {maps : Extmaps} {extents : List Segment}
  {mover : Datamover} {bus : Bus} {packet : List Byte} {i : Nat}

theorem issued_sized (T : TransferType) (maps : Extmaps) (nonempty : 0 < transfer.size) :
    Sized (issuePartialTransfers T transfer maps).partialTransfers := by
  intro element member
  obtain ⟨k, present⟩ := List.mem_iff_getElem?.mp member
  have tiles := @issued_tiles T transfer maps nonempty
  have inBlock := tiles.inBlock present
  rw [storageBlockSize_eq] at inBlock
  exact ⟨tiles.positive present, by omega⟩

theorem total_issued (T : TransferType) (maps : Extmaps) (nonempty : 0 < transfer.size) :
    total (commandSegments (issuePartialTransfers T transfer maps).partialTransfers) =
      transfer.size := by
  rw [total_commandSegments (issued_sized T maps nonempty), (issued_tiles nonempty).sum]

/-- The element of a byte of the request, and the place of the byte in it. -/
theorem issued_byte (T : TransferType) (maps : Extmaps) (nonempty : 0 < transfer.size)
    (below : i < transfer.size) :
    ∃ k element offset,
      (issuePartialTransfers T transfer maps).partialTransfers[k]? = some element ∧
      i = (issuePartialTransfers T transfer maps).bytesBefore k + offset ∧
      offset < element.data.size ∧
      locate (commandSegments (issuePartialTransfers T transfer maps).partialTransfers) i =
        some (datamoverAddress element.data + offset) := by
  have sized := issued_sized T maps nonempty
  rw [← total_issued T maps nonempty] at below
  obtain ⟨k, s, offset, present, place, inside⟩ := exists_index below
  have before : total ((commandSegments
      (issuePartialTransfers T transfer maps).partialTransfers).take k) =
      (issuePartialTransfers T transfer maps).bytesBefore k := by
    rw [commandSegments, ← List.map_take]
    exact total_commandSegments fun e member => sized e (List.mem_of_mem_take member)
  rw [commandSegments, List.getElem?_map, Option.map_eq_some_iff] at present
  obtain ⟨element, here, rfl⟩ := present
  have bytes := transferCommand_bytes (sized element (List.mem_of_getElem? here)).2
  refine ⟨k, element, offset, here, place.trans (by rw [before]), ?_, ?_⟩
  · rw [← bytes]
    exact inside
  · rw [place]
    exact locate_at (by rw [commandSegments, List.getElem?_map, here]; rfl) inside

namespace FileRequest

variable (request : FileRequest transfer maps.dram extents)

include request

theorem total_le : total extents ≤ pipelineNumBlocks :=
  Segments.total_le request.disjoint request.device

theorem followsLayout (T : TransferType) :
    (issuePartialTransfers T transfer maps).FollowsLayout transfer extents := by
  have mapped : maps.mapped transfer.map = maps.dram := by rw [request.dram]; rfl
  have small := request.total_le
  unfold pipelineNumBlocks at small
  refine followsLayout_of_stays (Or.inl request.dram) ?_ request.short (by omega) request.nonempty
    request.inside request.stays
  rw [mapped]
  exact request.holds

theorem fileSegments_disjoint : (fileSegments extents).Pairwise Segment.Disjoint :=
  List.pairwise_map.mpr (request.disjoint.imp fun apart => apart.scale storageBlockSize)

/-- The commands are on the bytes that the file has there. -/
theorem locate_byte (T : TransferType) (below : i < transfer.size) : ∃ x,
    locate (fileSegments extents) (transfer.addr + i) = some x ∧
      locate (commandSegments (issuePartialTransfers T transfer maps).partialTransfers) i =
        some (dramBaseOffset + x) := by
  have nonempty := request.nonempty
  obtain ⟨k, element, offset, present, place, inside, located⟩ :=
    issued_byte T maps nonempty below
  have tiles := @issued_tiles T transfer maps nonempty
  have inBlock := tiles.inBlock present
  obtain ⟨base, assigned, mapped⟩ :=
    request.followsLayout T k (List.getElem?_eq_some_iff.mp present).1
  have type := tiles.type present
  have place' := tiles.place present
  generalize (issuePartialTransfers T transfer maps).bytesBefore k = before at *
  have carried : (issuePartialTransfers T transfer maps).mapped .dram k =
      some element.data.address := by
    simp only [Issued.mapped, present, Option.map_some]
  rw [request.dram, carried, Option.some.injEq] at mapped
  obtain ⟨s, member, -, high⟩ := locate_mem assigned
  have device := request.device s member
  unfold pipelineNumBlocks at device
  have address : element.data.address =
      base * storageBlockSize + (transfer.addr + before) % storageBlockSize := by
    rw [mapped]
    refine u64_of_lt ?_
    rw [storageBlockSize_eq]
    omega
  have block : (transfer.addr + i) / storageBlockSize =
      (transfer.addr + before) / storageBlockSize := by
    rw [storageBlockSize_eq] at inBlock place' ⊢
    omega
  refine ⟨base * storageBlockSize + (transfer.addr + i) % storageBlockSize, ?_, ?_⟩
  · rw [fileSegments, locate_scale (by decide), block, assigned, Option.map_some]
  · rw [located, datamoverAddress, type, request.type, address]
    dsimp only
    rw [Option.some.injEq, u64_of_lt (by rw [storageBlockSize_eq]; unfold dramBaseOffset; omega)]
    rw [storageBlockSize_eq] at inBlock place' ⊢
    omega

/-- The commands are on disjoint addresses. -/
theorem commandSegments_disjoint :
    (commandSegments (issuePartialTransfers T transfer maps).partialTransfers).Pairwise
      Segment.Disjoint := by
  refine pairwise_disjoint_of_inj ?_
  intro i j y first second
  have below := lt_total first
  have below' := lt_total second
  rw [total_issued _ _ request.nonempty] at below below'
  obtain ⟨x, inFile, byte⟩ := request.locate_byte T below
  obtain ⟨x', inFile', byte'⟩ := request.locate_byte T below'
  rw [byte] at first
  rw [byte'] at second
  cases first
  have same : x' = x := by
    have := Option.some.inj second
    omega
  rw [same] at inFile'
  have := locate_inj request.fileSegments_disjoint inFile inFile'
  omega

theorem inside_bytes : transfer.addr + transfer.size ≤ total (fileSegments extents) := by
  rw [fileSegments, total_scale]
  exact request.inside

/-- The commands read the bytes of the request. -/
theorem gather_eq (bus : Bus) :
    gather bus (commandSegments (issuePartialTransfers T transfer maps).partialTransfers) =
      ((gather (dramOf bus) (fileSegments extents)).drop transfer.addr).take transfer.size := by
  have inside := request.inside_bytes
  refine List.ext_getElem? ?_
  intro i
  rcases Nat.lt_or_ge i transfer.size with below | beyond
  · obtain ⟨x, inFile, byte⟩ := request.locate_byte T below
    rw [getElem?_gather byte, List.getElem?_take_of_lt below, List.getElem?_drop,
      getElem?_gather inFile]
    rfl
  · rw [List.getElem?_eq_none (by rw [length_gather, total_issued _ _ request.nonempty]; exact beyond),
      List.getElem?_eq_none (by rw [List.length_take]; omega)]

/-- A packet stored through the commands replaces bytes of the request. -/
theorem scatter_file (bus : Bus) (packet : List Byte) :
    gather (dramOf (scatter bus (commandSegments
        (issuePartialTransfers T transfer maps).partialTransfers) packet)) (fileSegments extents) =
      splice (gather (dramOf bus) (fileSegments extents)) transfer.addr
        (packet.take transfer.size) := by
  have inside := request.inside_bytes
  have fits : transfer.addr + (packet.take transfer.size).length ≤
      (gather (dramOf bus) (fileSegments extents)).length := by
    rw [length_gather, List.length_take]
    omega
  refine List.ext_getElem? ?_
  intro p
  rw [getElem?_splice (by omega)]
  rcases Nat.lt_or_ge p (total (fileSegments extents)) with below | beyond
  · obtain ⟨x, located⟩ := exists_locate below
    rw [getElem?_gather located, getElem?_gather located]
    split
    · -- a byte of the request that the packet reaches
      rename_i within
      rw [List.length_take] at within
      obtain ⟨x', inFile, byte⟩ :=
        request.locate_byte T (show p - transfer.addr < transfer.size by omega)
      rw [Nat.add_sub_cancel' within.1, located] at inFile
      cases inFile
      have written : packet[p - transfer.addr]? = some packet[p - transfer.addr] :=
        List.getElem?_eq_getElem (by omega)
      rw [List.getElem?_take_of_lt (by omega), written]
      exact congrArg some (scatter_locate request.commandSegments_disjoint byte written)
    · -- any other byte of the file
      rename_i outside
      refine congrArg some (scatter_unwritten ?_)
      intro i written same
      have below' := lt_total same
      rw [total_issued _ _ request.nonempty] at below'
      obtain ⟨x', inFile, byte⟩ := request.locate_byte T below'
      rw [byte] at same
      have here : x' = x := by
        have := Option.some.inj same
        omega
      rw [here] at inFile
      have := locate_inj request.fileSegments_disjoint inFile located
      rw [List.length_take] at outside
      omega
  · rw [List.getElem?_eq_none (by rw [length_gather]; exact beyond),
      if_neg (by rw [length_gather] at fits; omega),
      List.getElem?_eq_none (by rw [length_gather]; exact beyond)]

/-- Nothing but bytes of the file is stored to. -/
theorem scatter_others (bus : Bus) (packet : List Byte) {y : Nat}
    (outside : ∀ s ∈ fileSegments extents, ∀ x, s.Contains x → y ≠ dramBaseOffset + x) :
    scatter bus (commandSegments (issuePartialTransfers T transfer maps).partialTransfers) packet y =
      bus y := by
  refine scatter_unwritten ?_
  intro i _ same
  have below := lt_total same
  rw [total_issued _ _ request.nonempty] at below
  obtain ⟨x, inFile, byte⟩ := request.locate_byte T below
  rw [byte] at same
  obtain ⟨s, member, contains⟩ := locate_mem inFile
  exact outside s member x contains (Option.some.inj same).symm

end FileRequest

/-- A request for bytes of host memory. -/
structure HostRequest (transfer : Address) : Prop where
  type : transfer.type = .host
  unmapped : transfer.map = .none
  nonempty : 0 < transfer.size
  inside : transfer.addr + transfer.size ≤ dramBaseOffset

/-- The commands are on the bytes of host memory. -/
theorem HostRequest.locate_byte (request : HostRequest transfer) (below : i < transfer.size) :
    locate (commandSegments (issuePartialTransfers T transfer maps).partialTransfers) i =
      some (transfer.addr + i) := by
  have nonempty := request.nonempty
  have inside := request.inside
  obtain ⟨k, element, offset, present, place, within, located⟩ :=
    issued_byte T maps nonempty below
  have address := issued_address nonempty request.unmapped present
  have type := (@issued_tiles T transfer maps nonempty).type present
  unfold dramBaseOffset at inside
  rw [located, datamoverAddress, type, request.type, address]
  dsimp only
  rw [Nat.mod_eq_of_lt (by omega), place, Nat.add_assoc]

end Request

/-! ## The data path -/

section Path

variable {mover : Datamover} {transfer : Address} {maps : Extmaps} {extents : List Segment}
  {bus bus' : Bus} {packet : List Byte} {written : FromStream}

/-- The commands of `load_data` for data that is not on NVMe. -/
theorem loadData_eq (nonempty : 0 < transfer.size) (plain : transfer.type ≠ .nvme) :
    loadData transfer maps = some ([],
      (issuePartialTransfers .read transfer maps).partialTransfers.map transferCommand) := by
  have ends := @issued_lastAtEnd transfer maps .read nonempty
  unfold loadData
  dsimp only
  rw [loadNvmeData_passes ends, Option.bind_some, transferToStream_eq ends, Option.map_some]
  intro element member
  rw [(issued_member nonempty member).1]
  exact plain

/-- `load_data` issues its commands, the last one with the end of the frame, and the DataMover puts
the bytes of the request on the stream. -/
theorem loadData_streams_request (documented : mover.Documented)
    (request : FileRequest transfer maps.dram extents) (bus : Bus) :
    ∃ commands, loadData transfer maps = some ([], commands) ∧
      mover.stream bus commands =
        ((gather (dramOf bus) (fileSegments extents)).drop transfer.addr).take transfer.size ∧
      commands.map DatamoverCommand.endOfFrame =
        List.replicate (commands.length - 1) false ++ [true] := by
  have ends := @issued_lastAtEnd transfer maps .read request.nonempty
  have sized := issued_sized .read maps request.nonempty
  refine ⟨_, loadData_eq request.nonempty (by rw [request.type]; decide), ?_, ?_⟩
  · rw [stream_eq_gather documented sized, request.gather_eq]
  · rw [List.length_map, List.map_map]
    exact ends.flags

theorem loadData_streams_host (documented : mover.Documented) (request : HostRequest transfer)
    (maps : Extmaps) (bus : Bus) : ∃ commands, loadData transfer maps = some ([], commands) ∧
      mover.stream bus commands = fetch bus transfer.addr transfer.size := by
  have sized := issued_sized .read maps request.nonempty
  have bytes := total_issued .read maps request.nonempty
  refine ⟨_, loadData_eq request.nonempty (by rw [request.type]; decide), ?_⟩
  rw [stream_eq_gather documented sized, gather_of_range, bytes]
  intro i below
  rw [bytes] at below
  exact request.locate_byte below

/-- A run of `write_data` with the DataMover. -/
theorem writeRun_issued_iff (documented : mover.Documented) (nonempty : 0 < transfer.size)
    (small : transfer.size < 2 ^ 64) (data : packet ≠ []) :
    WriteRun mover (issuePartialTransfers .write transfer maps).partialTransfers bus packet
        written bus' ↔
      written = ⟨(reached (issuePartialTransfers .write transfer maps).partialTransfers
            packet.length).map transferCommand,
          truncated (issuePartialTransfers .write transfer maps).partialTransfers packet.length,
          min packet.length transfer.size⟩ ∧
        bus' = scatter bus (commandSegments
          (issuePartialTransfers .write transfer maps).partialTransfers) packet := by
  have bytes := total_issued .write maps nonempty
  rw [writeRun_iff documented (issued_lastAtEnd nonempty) (issued_sized .write maps nonempty)
    (by rw [bytes]; exact small) data, bytes]

theorem FileRequest.size_lt (request : FileRequest transfer maps.dram extents) :
    transfer.size < 2 ^ 64 := by
  have inside := request.inside
  have blocks := request.total_le
  unfold pipelineNumBlocks at blocks
  rw [storageBlockSize_eq] at inside
  omega

/-- A packet that goes through `write_data` replaces the bytes of the request, as many as it has, in
the file and nowhere else, and its length is reported. -/
theorem writeData_replaces_request (documented : mover.Documented)
    (request : FileRequest transfer maps.dram extents) (bus : Bus) (data : packet ≠ []) :
    (∃ written bus', WriteRun mover (issuePartialTransfers .write transfer maps).partialTransfers
      bus packet written bus') ∧
    ∀ written bus', WriteRun mover (issuePartialTransfers .write transfer maps).partialTransfers
      bus packet written bus' →
      written.size = min packet.length transfer.size ∧
      gather (dramOf bus') (fileSegments extents) =
        splice (gather (dramOf bus) (fileSegments extents)) transfer.addr
          (packet.take transfer.size) ∧
      ∀ y, (∀ s ∈ fileSegments extents, ∀ x, s.Contains x → y ≠ dramBaseOffset + x) →
        bus' y = bus y := by
  have run : ∀ {written bus'}, WriteRun mover
      (issuePartialTransfers .write transfer maps).partialTransfers bus packet written bus' ↔ _ :=
    fun {_ _} => writeRun_issued_iff documented request.nonempty request.size_lt data
  constructor
  · exact ⟨_, _, run.mpr ⟨rfl, rfl⟩⟩
  · intro written bus' wrote
    obtain ⟨rfl, rfl⟩ := run.mp wrote
    exact ⟨rfl, request.scatter_file bus packet,
      fun y outside => request.scatter_others bus packet outside⟩

theorem writeData_replaces_host (documented : mover.Documented) (request : HostRequest transfer)
    (maps : Extmaps) (bus : Bus) (data : packet ≠ []) :
    (∃ written bus', WriteRun mover (issuePartialTransfers .write transfer maps).partialTransfers
      bus packet written bus') ∧
    ∀ written bus', WriteRun mover (issuePartialTransfers .write transfer maps).partialTransfers
      bus packet written bus' →
      written.size = min packet.length transfer.size ∧
      bus' = store bus transfer.addr (packet.take transfer.size) := by
  have inside := request.inside
  unfold dramBaseOffset at inside
  have bytes := total_issued .write maps request.nonempty
  have run : ∀ {written bus'}, WriteRun mover
      (issuePartialTransfers .write transfer maps).partialTransfers bus packet written bus' ↔ _ :=
    fun {_ _} => writeRun_issued_iff documented request.nonempty (by omega) data
  constructor
  · exact ⟨_, _, run.mpr ⟨rfl, rfl⟩⟩
  · intro written bus' wrote
    obtain ⟨rfl, rfl⟩ := run.mp wrote
    refine ⟨rfl, ?_⟩
    have range : ∀ i < total (commandSegments
        (issuePartialTransfers .write transfer maps).partialTransfers),
        locate (commandSegments (issuePartialTransfers .write transfer maps).partialTransfers) i =
          some (transfer.addr + i) :=
      fun i below => request.locate_byte (lt_of_lt_of_eq below bytes)
    rw [scatter_of_range range, bytes]

end Path

end MetalFs.Fpga
