import MetalFs.Fpga.PartialTransfers

/-!
# Writing to NVMe

The three stages of `write_data` in `mtl_op_mem.cpp`, connected by streams: the
partial transfers go to the DataMover (`transfer_from_stream`), which writes the
data to DRAM and may see the end of the data early, and then to the NVMe
controller (`write_nvme_data`), which writes the blocks from DRAM to NVMe.  `none`
stands for a stage that waits for ever on an empty stream.
-/

namespace MetalFs.Fpga

/-- `DRAMBaseOffset`. -/
def dramBaseOffset : Nat := 0x8000000000000000

/-- `NVMeDRAMBaseOffset`. -/
def nvmeDRAMBaseOffset : Nat := 0x200000000

/-- `NVMeCommand`. -/
structure NvmeCommand where
  dramOffset : Nat
  nvmeBlockOffset : Nat
  numBlocks : Nat
  drive : Nat
deriving DecidableEq, Repr

/-- `issue_nvme_block_transfer_command`: whole blocks, wherever the addresses are in
them. -/
def issueNvmeBlockTransferCommand (nvmeAddress dramAddress : Nat) : NvmeCommand where
  dramOffset := dramAddress - dramAddress % storageBlockSize
  nvmeBlockOffset := u64 (nvmeAddress / storageBlockSize * (storageBlockSize / 512))
  numBlocks := storageBlockSize / 512 - 1
  drive := 0

/-- `DatamoverCommand`. -/
structure DatamoverCommand where
  effectiveAddress : Nat
  endOfFrame : Bool
  transferBytes : Nat
deriving DecidableEq, Repr

/-- `DatamoverIbttStatus`. -/
structure DatamoverIbttStatus where
  endOfPacket : Bool
  numBytesTransferred : Nat
deriving DecidableEq, Repr

/-- `issue_block_transfer_command`; the length has 23 bits. -/
def issueBlockTransferCommand (transferBytes : Nat) (endOfFrame : Bool)
    (effectiveAddress : Nat) : DatamoverCommand where
  effectiveAddress := effectiveAddress
  endOfFrame := endOfFrame
  transferBytes := transferBytes % 2 ^ 23

/-- The address the DataMover uses for a transfer. -/
def datamoverAddress (transfer : Transfer) : Nat :=
  match transfer.type with
  | .cardDRAM | .nvme => u64 (transfer.address + dramBaseOffset)
  | _ => transfer.address

/-- What `transfer_from_stream` did when it returns. -/
structure FromStream where
  commands : List DatamoverCommand
  out : List TransferElement
  size : Nat

/-- `transfer_from_stream`, its two processes in the order the streams between them
force: a transfer is issued when the status of the one before is known. -/
def transferFromStream : List TransferElement → List DatamoverIbttStatus → Bool → Option FromStream
  | [], _, _ => none
  | currentTransfer :: later, dmSts, endOfPacket =>
    if endOfPacket then
      let rest := if currentTransfer.last then some ⟨[], [], 0⟩
        else transferFromStream later dmSts true
      rest.map fun rest =>
        { rest with out :=
            { currentTransfer with data := { currentTransfer.data with size := 0 } } :: rest.out }
    else
      match dmSts with
      | [] => none
      | result :: dmSts =>
        let command := issueBlockTransferCommand currentTransfer.data.size currentTransfer.last
          (datamoverAddress currentTransfer.data)
        let rest := if currentTransfer.last then some ⟨[], [], 0⟩
          else transferFromStream later dmSts result.endOfPacket
        rest.map fun rest =>
          ⟨command :: rest.commands, currentTransfer :: rest.out,
            u64 (result.numBytesTransferred + rest.size)⟩

/-- `write_nvme_data`: the commands of its first process, and what is left in
`nvme_transfers`. -/
def writeNvmeData : List TransferElement → List Nat → Option (List NvmeCommand × List Nat)
  | [], _ => none
  | currentTransfer :: later, nvmeTransfers =>
    if currentTransfer.data.type = .nvme then
      match nvmeTransfers with
      | [] => none
      | nvmeAddress :: nvmeTransfers =>
        let dramAddress := u64 (nvmeDRAMBaseOffset + currentTransfer.data.address)
        let command := if 0 < currentTransfer.data.size
          then [issueNvmeBlockTransferCommand nvmeAddress dramAddress] else []
        let rest := if currentTransfer.last then some ([], nvmeTransfers)
          else writeNvmeData later nvmeTransfers
        rest.map fun rest => (command ++ rest.1, rest.2)
    else if currentTransfer.last then some ([], nvmeTransfers)
    else writeNvmeData later nvmeTransfers

/-- `write_data`, with the NVMe commands it issues. -/
def writeData (transfer : Address) (maps : Extmaps) (dmSts : List DatamoverIbttStatus) :
    Option (List NvmeCommand) :=
  let issued := issuePartialTransfers .write transfer maps
  (transferFromStream issued.partialTransfers dmSts false).bind fun written =>
    (writeNvmeData written.out issued.nvmeTransfers).map Prod.fst

/-! ## The commands of the elements -/

/-- The command that writes an element back. -/
def writeCommand (element : TransferElement) (nvmeAddress : Nat) : NvmeCommand :=
  issueNvmeBlockTransferCommand nvmeAddress (u64 (nvmeDRAMBaseOffset + element.data.address))

section Commands

variable {element : TransferElement} {later : List TransferElement}
  {dmSts : List DatamoverIbttStatus} {written : FromStream} {nvmeTransfers : List Nat}
  {result : List NvmeCommand × List Nat}

/-- One element of `transfer_from_stream`: it comes out with size zero after the end
of the packet, and as it is before. -/
theorem transferFromStream_cons {endOfPacket : Bool}
    (stream : transferFromStream (element :: later) dmSts endOfPacket = some written) :
    ∃ head rest, written.out = head :: rest ∧ head.data.type = element.data.type ∧
      head.last = element.last ∧ (endOfPacket = true → head.data.size = 0) ∧
      (endOfPacket = false → head = element) ∧
      (element.last = true ∧ rest = [] ∨ element.last = false ∧
        ∃ dmSts' endOfPacket' written', (endOfPacket = true → endOfPacket' = true) ∧
          transferFromStream later dmSts' endOfPacket' = some written' ∧ rest = written'.out) := by
  unfold transferFromStream at stream
  cases endOfPacket with
  | true =>
    rw [if_pos rfl] at stream
    obtain ⟨rest, again, rfl⟩ := Option.map_eq_some_iff.mp stream
    refine ⟨_, rest.out, rfl, rfl, rfl, fun _ => rfl, nofun, ?_⟩
    cases last : element.last with
    | true =>
      rw [last, if_pos rfl] at again
      cases again
      exact Or.inl ⟨rfl, rfl⟩
    | false =>
      simp only [last, Bool.false_eq_true, if_false] at again
      exact Or.inr ⟨rfl, _, _, rest, fun _ => rfl, again, rfl⟩
  | false =>
    rw [if_neg Bool.false_ne_true] at stream
    cases dmSts with
    | nil => cases stream
    | cons status dmSts =>
      obtain ⟨rest, again, rfl⟩ := Option.map_eq_some_iff.mp stream
      refine ⟨element, rest.out, rfl, rfl, rfl, nofun, fun _ => rfl, ?_⟩
      cases last : element.last with
      | true =>
        rw [last, if_pos rfl] at again
        cases again
        exact Or.inl ⟨rfl, rfl⟩
      | false =>
        simp only [last, Bool.false_eq_true, if_false] at again
        exact Or.inr ⟨rfl, _, _, rest, nofun, again, rfl⟩

/-- One element of `write_nvme_data`. -/
theorem writeNvmeData_cons (nvme : element.data.type = .nvme)
    (commands : writeNvmeData (element :: later) nvmeTransfers = some result) :
    ∃ nvmeAddress queue rest, nvmeTransfers = nvmeAddress :: queue ∧
      (0 < element.data.size → result.1 = writeCommand element nvmeAddress :: rest) ∧
      (element.data.size = 0 → result.1 = rest) ∧
      (element.last = true ∧ rest = [] ∨ element.last = false ∧
        ∃ result', writeNvmeData later queue = some result' ∧ rest = result'.1) := by
  unfold writeNvmeData at commands
  rw [if_pos nvme] at commands
  cases nvmeTransfers with
  | nil => cases commands
  | cons nvmeAddress queue =>
    obtain ⟨rest, again, rfl⟩ := Option.map_eq_some_iff.mp commands
    refine ⟨nvmeAddress, queue, rest.1, rfl, ?_, ?_, ?_⟩
    · intro nonempty
      simp only [nonempty, if_true, List.singleton_append]
      rfl
    · intro empty
      simp only [empty, Nat.lt_irrefl, if_false, List.nil_append]
    · cases last : element.last with
      | true =>
        rw [last, if_pos rfl] at again
        cases again
        exact Or.inl ⟨rfl, rfl⟩
      | false =>
        simp only [last, Bool.false_eq_true, if_false] at again
        exact Or.inr ⟨rfl, rest, again, rfl⟩

/-- Nothing is written back after the end of the packet. -/
theorem writeNvmeData_terminated {elements : List TransferElement}
    (nvme : ∀ element ∈ elements, element.data.type = .nvme)
    (stream : transferFromStream elements dmSts true = some written)
    (commands : writeNvmeData written.out nvmeTransfers = some result) : result.1 = [] := by
  induction elements generalizing dmSts written nvmeTransfers result with
  | nil => cases stream
  | cons element later ih =>
    obtain ⟨head, rest, out, type, last, zero, -, tail⟩ := transferFromStream_cons stream
    rw [out] at commands
    obtain ⟨_, queue, more, -, -, skips, tail'⟩ :=
      writeNvmeData_cons (type.trans (nvme element List.mem_cons_self)) commands
    rw [skips (zero rfl)]
    rcases tail with ⟨stop, -⟩ | ⟨on, _, endOfPacket, written', kept, stream', rfl⟩
    · rcases tail' with ⟨-, done⟩ | ⟨on', -⟩
      · exact done
      · rw [last, stop] at on'
        cases on'
    · rcases tail' with ⟨stop', -⟩ | ⟨-, result', commands', rfl⟩
      · rw [last, on] at stop'
        cases stop'
      · rw [kept rfl] at stream'
        exact ih (fun e member => nvme e (List.mem_cons_of_mem _ member)) stream' commands'

/-- The `k`-th NVMe command of a write is the one of its `k`-th element. -/
theorem writeNvmeData_command {elements : List TransferElement}
    (nvme : ∀ element ∈ elements, element.data.type = .nvme)
    (nonempty : ∀ element ∈ elements, 0 < element.data.size)
    (stream : transferFromStream elements dmSts false = some written)
    (commands : writeNvmeData written.out nvmeTransfers = some result) {k : Nat}
    {command : NvmeCommand} (present : result.1[k]? = some command) :
    ∃ element nvmeAddress, elements[k]? = some element ∧ nvmeTransfers[k]? = some nvmeAddress ∧
      command = writeCommand element nvmeAddress := by
  induction elements generalizing dmSts written nvmeTransfers result k with
  | nil => cases stream
  | cons element later ih =>
    obtain ⟨head, rest, out, -, -, -, same, tail⟩ := transferFromStream_cons stream
    obtain rfl := same rfl
    rw [out] at commands
    obtain ⟨nvmeAddress, queue, more, rfl, issues, -, tail'⟩ :=
      writeNvmeData_cons (nvme head List.mem_cons_self) commands
    rw [issues (nonempty head List.mem_cons_self)] at present
    cases k with
    | zero =>
      cases present
      exact ⟨head, nvmeAddress, rfl, rfl, rfl⟩
    | succ k =>
      rw [List.getElem?_cons_succ] at present
      rcases tail' with ⟨-, rfl⟩ | ⟨on, result', commands', rfl⟩
      · cases present
      · rcases tail with ⟨stop, -⟩ | ⟨-, dmSts', endOfPacket, written', -, stream', rfl⟩
        · rw [on] at stop
          cases stop
        · have nvme' := fun e member => nvme e (List.mem_cons_of_mem head member)
          cases endOfPacket with
          | true =>
            rw [writeNvmeData_terminated nvme' stream' commands'] at present
            cases present
          | false =>
            exact ih nvme' (fun e member => nonempty e (List.mem_cons_of_mem head member)) stream'
              commands' present

/-- Exactly the final element has `last` set. -/
def LastAtEnd (elements : List TransferElement) : Prop :=
  elements ≠ [] ∧ ∀ k element, elements[k]? = some element →
    (element.last = true ↔ k + 1 = elements.length)

/-- Statuses of a DataMover that never sees an early end of the data. -/
def allTransferred (n : Nat) : List DatamoverIbttStatus := List.replicate n ⟨false, 0⟩

theorem LastAtEnd.head (ends : LastAtEnd (element :: later)) :
    element.last = true ∧ later = [] ∨ element.last = false ∧ LastAtEnd later := by
  have head := ends.2 0 element rfl
  cases later with
  | nil => exact Or.inl ⟨head.mpr rfl, rfl⟩
  | cons next later =>
    right
    constructor
    · rw [← Bool.not_eq_true, head, List.length_cons, List.length_cons]
      omega
    · refine ⟨List.cons_ne_nil _ _, ?_⟩
      intro k e present
      rw [ends.2 (k + 1) e present, List.length_cons]
      omega

/-- Without an early end of the packet every element comes out as it is. -/
theorem transferFromStream_complete {elements : List TransferElement}
    (ends : LastAtEnd elements) : ∃ written,
      transferFromStream elements (allTransferred elements.length) false = some written ∧
        written.out = elements := by
  induction elements with
  | nil => exact absurd rfl ends.1
  | cons element later ih =>
    unfold transferFromStream
    simp only [List.length_cons, allTransferred, List.replicate_succ, Bool.false_eq_true, if_false]
    rcases ends.head with ⟨last, rfl⟩ | ⟨notLast, ends'⟩
    · rw [if_pos last]
      exact ⟨_, rfl, rfl⟩
    · obtain ⟨written, stream, out⟩ := ih ends'
      unfold allTransferred at stream
      rw [if_neg (by rw [notLast]; exact Bool.false_ne_true), stream]
      exact ⟨_, rfl, by rw [← out]⟩

/-- Every element with data is written back. -/
theorem writeNvmeData_complete {elements : List TransferElement}
    (nvme : ∀ element ∈ elements, element.data.type = .nvme)
    (nonempty : ∀ element ∈ elements, 0 < element.data.size) (ends : LastAtEnd elements)
    (queued : nvmeTransfers.length = elements.length) : ∃ result,
      writeNvmeData elements nvmeTransfers = some result ∧ result.1.length = elements.length := by
  induction elements generalizing nvmeTransfers with
  | nil => exact absurd rfl ends.1
  | cons element later ih =>
    obtain ⟨nvmeAddress, queue, rfl⟩ := List.exists_cons_of_length_eq_add_one queued
    unfold writeNvmeData
    simp only [nvme element List.mem_cons_self, nonempty element List.mem_cons_self, if_true]
    rcases ends.head with ⟨last, rfl⟩ | ⟨notLast, ends'⟩
    · rw [if_pos last]
      exact ⟨_, rfl, rfl⟩
    · obtain ⟨result, commands, length⟩ :=
        @ih queue (fun e member => nvme e (List.mem_cons_of_mem _ member))
          (fun e member => nonempty e (List.mem_cons_of_mem _ member)) ends' (by simpa using queued)
      rw [if_neg (by rw [notLast]; exact Bool.false_ne_true), commands]
      refine ⟨_, rfl, ?_⟩
      rw [List.length_append, length, List.length_cons]
      exact Nat.add_comm _ _

end Commands

/-! ## The commands of a write -/

section Write

variable {transfer : Address} {maps : Extmaps} {k : Nat}

theorem issued_member {T : TransferType} (nonempty : 0 < transfer.size) {element : TransferElement}
    (member : element ∈ (issuePartialTransfers T transfer maps).partialTransfers) :
    element.data.type = transfer.type ∧ 0 < element.data.size := by
  simp only [issuePartialTransfers_eq nonempty] at member
  obtain ⟨k, range, rfl⟩ := List.mem_map.mp member
  have round := List.mem_range.mp range
  exact ⟨rfl, bytesThisRound_pos (roundStart_lt nonempty (by omega))⟩

theorem issued_lastAtEnd {T : TransferType} (nonempty : 0 < transfer.size) :
    LastAtEnd (issuePartialTransfers T transfer maps).partialTransfers := by
  have length : (issuePartialTransfers T transfer maps).partialTransfers.length =
      transfer.blockSpan + 1 := issued_length nonempty
  refine ⟨List.ne_nil_of_length_pos (by omega), ?_⟩
  intro k element present
  have round : k ≤ transfer.blockSpan := by
    have := (List.getElem?_eq_some_iff.mp present).1
    omega
  rw [issued_element nonempty round] at present
  obtain rfl := Option.some.inj present
  have begins := roundStart_lt nonempty round
  have step := roundStart_succ nonempty round
  rw [length]
  simp only [partialTransfer, decide_eq_true_eq]
  rcases Nat.lt_or_ge k transfer.blockSpan with earlier | final
  · have := roundStart_lt nonempty (show k + 1 ≤ transfer.blockSpan from earlier)
    omega
  · have := roundStart_end nonempty (show transfer.blockSpan < k + 1 by omega)
    omega

/-- The command that writes back the `k`-th block of the range. -/
theorem writeData_command (nvme : transfer.type = .nvme) (nonempty : 0 < transfer.size)
    {dmSts : List DatamoverIbttStatus} {writes : List NvmeCommand}
    (run : writeData transfer maps dmSts = some writes) {command : NvmeCommand}
    (present : writes[k]? = some command) :
    k ≤ transfer.blockSpan ∧ ∃ nvmeAddress, command = writeCommand (partialTransfer .write transfer
      ((Extmaps.next transfer.map)^[k] (maps.seek transfer)) (transfer.roundStart k))
        nvmeAddress := by
  obtain ⟨written, stream, commands⟩ := Option.bind_eq_some_iff.mp run
  obtain ⟨result, commands', rfl⟩ := Option.map_eq_some_iff.mp commands
  obtain ⟨element, nvmeAddress, elementAt, -, rfl⟩ := writeNvmeData_command
    (fun e member => (issued_member nonempty member).1.trans nvme)
    (fun e member => (issued_member nonempty member).2) stream commands' present
  have round : k ≤ transfer.blockSpan := by
    have := (List.getElem?_eq_some_iff.mp elementAt).1
    rw [issued_length nonempty] at this
    omega
  rw [issued_element nonempty round] at elementAt
  obtain rfl := Option.some.inj elementAt
  exact ⟨round, nvmeAddress, rfl⟩

/-- A run in which all the data arrives writes back every block. -/
theorem writeData_complete (nvme : transfer.type = .nvme) (nonempty : 0 < transfer.size)
    (uses : transfer.map = .nvme ∨ transfer.map = .dramAndNvme) : ∃ dmSts writes,
      writeData transfer maps dmSts = some writes ∧ writes.length = transfer.blockSpan + 1 := by
  have ends : LastAtEnd (issuePartialTransfers .write transfer maps).partialTransfers :=
    issued_lastAtEnd nonempty
  obtain ⟨written, stream, out⟩ := transferFromStream_complete ends
  have length : (issuePartialTransfers .write transfer maps).partialTransfers.length =
      transfer.blockSpan + 1 := issued_length nonempty
  have queued : (issuePartialTransfers .write transfer maps).nvmeTransfers.length =
      transfer.blockSpan + 1 := by
    rw [issued_nvmeTransfers nonempty uses, List.length_map, List.length_range]
  obtain ⟨result, commands, count⟩ := writeNvmeData_complete
    (fun e member => (issued_member nonempty member).1.trans nvme)
    (fun e member => (issued_member nonempty member).2) ends (queued.trans length.symm)
  refine ⟨allTransferred (issuePartialTransfers .write transfer maps).partialTransfers.length,
    result.1, ?_, count.trans length⟩
  unfold writeData
  simp only [stream, Option.bind_some, out, commands, Option.map_some]

end Write

end MetalFs.Fpga
