import MetalFs.Fpga.NvmeData

/-!
# Preloading partial blocks

NVMe is written in whole storage blocks.  Before a write `preload_nvme_blocks` reads
the blocks that the byte range covers only partially into DRAM, so that the new
bytes can be laid over the old ones.

The right blocks are read, but not to the place they are written back from: the
address of the read command lacks `NVMeDRAMBaseOffset`.
-/

namespace MetalFs.Fpga

open Segments

/-- The body of the two branches of `preload_nvme_blocks`, for the block of a byte. -/
def preloadBlock (map : MapType) (maps : Extmaps) (byteAddr : Nat) : NvmeCommand × Extmaps :=
  let dram := match map with
    | .dramAndNvme => (mtlExtmapSeek maps.dram (byteAddr % pagefileSize / storageBlockSize)).1
    | _ => maps.dram
  let dramAddress := match map with
    | .nvme => u64 (nvmeDRAMWriteOffset + byteAddr % 2 ^ 31)
    | .dramAndNvme => u64 (mtlExtmapPblock dram * storageBlockSize)
    | _ => 0
  let nvme := (mtlExtmapSeek maps.nvme (byteAddr / storageBlockSize)).1
  let nvmeAddress := u64 (mtlExtmapPblock nvme * storageBlockSize)
  (issueNvmeBlockTransferCommand nvmeAddress dramAddress, ⟨dram, nvme⟩)

/-- `preload_nvme_blocks`, with the read commands it issues. -/
def preloadNvmeBlocks (address : Address) (maps : Extmaps) : List NvmeCommand × Extmaps :=
  let startAddr := address.addr
  let endAddr := u64 (startAddr + address.size)
  let lastByteAddr := u64 (startAddr + (if 0 < address.size then address.size else 1) - 1)
  let startAddressIsOdd := startAddr % storageBlockSize ≠ 0
  let endAddressIsOdd := endAddr % storageBlockSize ≠ 0
  let endBlockIsDifferentFromStartBlock :=
    startAddr / storageBlockSize ≠ lastByteAddr / storageBlockSize
  let first := preloadBlock address.map maps startAddr
  let maps := if startAddressIsOdd then first.2 else maps
  let second := preloadBlock address.map maps endAddr
  let preloadEnd := endAddressIsOdd ∧ (endBlockIsDifferentFromStartBlock ∨ ¬ startAddressIsOdd)
  ((if startAddressIsOdd then [first.1] else []) ++ (if preloadEnd then [second.1] else []),
    if preloadEnd then second.2 else maps)

/-! ## Partially covered blocks -/

/-- The byte range covers the whole block. -/
def Address.CoversBlock (address : Address) (block : Nat) : Prop :=
  address.addr ≤ block * storageBlockSize ∧
    (block + 1) * storageBlockSize ≤ address.addr + address.size

instance (address : Address) (block : Nat) : Decidable (address.CoversBlock block) :=
  inferInstanceAs (Decidable (_ ∧ _))

/-- The blocks the byte range touches and does not cover. -/
def Address.partialBlocks (address : Address) : List Nat :=
  (List.range' (address.addr / storageBlockSize) (address.blockSpan + 1)).filter fun block =>
    ¬ address.CoversBlock block

/-- The byte range begins and ends on a block border. -/
def Address.Aligned (address : Address) : Prop :=
  address.addr % storageBlockSize = 0 ∧ (address.addr + address.size) % storageBlockSize = 0

instance (address : Address) : Decidable address.Aligned := inferInstanceAs (Decidable (_ ∧ _))

section Blocks

variable {address : Address}

theorem blockSpan_eq (nonempty : 0 < address.size) :
    (address.addr + address.size - 1) / storageBlockSize =
      address.addr / storageBlockSize + address.blockSpan := by
  unfold Address.blockSpan
  rw [storageBlockSize_eq]
  omega

/-- Only the first and the last block can be partial. -/
theorem not_coversBlock_iff (nonempty : 0 < address.size) {block : Nat}
    (low : address.addr / storageBlockSize ≤ block)
    (high : block ≤ address.addr / storageBlockSize + address.blockSpan) :
    ¬ address.CoversBlock block ↔
      block = address.addr / storageBlockSize ∧ address.addr % storageBlockSize ≠ 0 ∨
      block = address.addr / storageBlockSize + address.blockSpan ∧
        (address.addr + address.size) % storageBlockSize ≠ 0 := by
  have span := blockSpan_eq nonempty
  unfold Address.CoversBlock
  rw [storageBlockSize_eq] at span low high ⊢
  omega

/-- The ends of an interval that satisfy their condition. -/
theorem filter_ends (first n : Nat) (P Q : Prop) [Decidable P] [Decidable Q] :
    ((List.range' first (n + 1)).filter fun block =>
      decide (block = first ∧ P ∨ block = first + n ∧ Q)) =
      (if P then [first] else []) ++ (if Q ∧ (n ≠ 0 ∨ ¬ P) then [first + n] else []) := by
  cases n with
  | zero =>
    by_cases p : P <;> by_cases q : Q <;> simp [p, q]
  | succ n =>
    have middle : ((List.range' (first + 1) n).filter fun block =>
        decide (block = first ∧ P ∨ block = first + (n + 1) ∧ Q)) = [] := by
      rw [List.filter_eq_nil_iff]
      intro block member
      have := List.mem_range'_1.mp member
      simp only [decide_eq_true_eq]
      omega
    rw [List.range'_succ, List.range'_1_concat, List.filter_cons, List.filter_append, middle]
    by_cases p : P <;> by_cases q : Q <;> simp [p, q, Nat.add_comm, Nat.add_left_comm]

theorem partialBlocks_eq (nonempty : 0 < address.size) :
    address.partialBlocks =
      (if address.addr % storageBlockSize ≠ 0 then [address.addr / storageBlockSize] else []) ++
      (if (address.addr + address.size) % storageBlockSize ≠ 0 ∧
          (address.blockSpan ≠ 0 ∨ ¬ address.addr % storageBlockSize ≠ 0) then
        [address.addr / storageBlockSize + address.blockSpan] else []) := by
  unfold Address.partialBlocks
  rw [← filter_ends]
  apply List.filter_congr
  intro block member
  have range := List.mem_range'_1.mp member
  rw [decide_eq_decide]
  exact not_coversBlock_iff nonempty range.1 (by omega)

end Blocks

/-! ## The read commands -/

/-- The command reads the block that the extents assign to a block of the file. -/
def ReadsBlock (extents : List Segment) (command : NvmeCommand) (block : Nat) : Prop :=
  ∃ base, locate extents block = some base ∧
    command.nvmeBlockOffset = base * (storageBlockSize / 512)

section Reads

variable {map : MapType} {maps : Extmaps} {extents : List Segment} {address : Address}

theorem preloadBlock_dram (holds : maps.dram.Holds extents) (byteAddr : Nat) :
    (preloadBlock map maps byteAddr).2.dram.Holds extents := by
  unfold preloadBlock
  cases map <;> dsimp only
  case dramAndNvme => exact holds.seek _
  all_goals exact holds

theorem preloadBlock_nvme (holds : maps.nvme.Holds extents) (byteAddr : Nat) :
    (preloadBlock map maps byteAddr).2.nvme.Holds extents := by
  unfold preloadBlock
  dsimp only
  exact holds.seek _

theorem preloadBlock_reads (holds : maps.nvme.Holds extents)
    (short : extents.length ≤ maxExtentsPerFile) (bound : total extents < 2 ^ 64)
    (addressable : Addressable extents) {byteAddr : Nat}
    (inside : byteAddr / storageBlockSize < total extents) :
    ReadsBlock extents (preloadBlock map maps byteAddr).1 (byteAddr / storageBlockSize) := by
  obtain ⟨base, located⟩ := exists_locate inside
  refine ⟨base, located, ?_⟩
  have device := addressable.locate_lt located
  have sought := mtlExtmapSeek_locate holds short bound located
  unfold preloadBlock issueNvmeBlockTransferCommand
  dsimp only
  rw [sought, storageBlockSize_eq]
  unfold u64
  omega

/-- The two branches in terms of the byte range. -/
theorem preloadNvmeBlocks_eq (maps : Extmaps) (nonempty : 0 < address.size)
    (fits : address.addr + address.size ≤ 2 ^ 64) : ∃ mapsEnd endAddr,
    ((address.addr + address.size) % storageBlockSize ≠ 0 →
      endAddr = address.addr + address.size) ∧
    (mapsEnd = maps ∨ mapsEnd = (preloadBlock address.map maps address.addr).2) ∧
    (preloadNvmeBlocks address maps).1 =
      (if address.addr % storageBlockSize ≠ 0 then [(preloadBlock address.map maps address.addr).1]
        else []) ++
      (if (address.addr + address.size) % storageBlockSize ≠ 0 ∧
          (address.blockSpan ≠ 0 ∨ ¬ address.addr % storageBlockSize ≠ 0) then
        [(preloadBlock address.map mapsEnd endAddr).1] else []) := by
  have span := blockSpan_eq nonempty
  have ends : u64 (address.addr + address.size) % storageBlockSize ≠ 0 ↔
      (address.addr + address.size) % storageBlockSize ≠ 0 := by
    rw [storageBlockSize_eq]
    unfold u64
    omega
  have different : address.addr / storageBlockSize ≠
      u64 (address.addr + (if 0 < address.size then address.size else 1) - 1) / storageBlockSize ↔
        address.blockSpan ≠ 0 := by
    rw [if_pos nonempty, u64_of_lt (by omega), span]
    omega
  refine ⟨if address.addr % storageBlockSize ≠ 0 then
    (preloadBlock address.map maps address.addr).2 else maps, u64 (address.addr + address.size),
    ?_, ?_, ?_⟩
  · intro odd
    rw [storageBlockSize_eq] at odd
    exact u64_of_lt (by omega)
  · split
    · exact Or.inr rfl
    · exact Or.inl rfl
  · simp only [preloadNvmeBlocks, ends, different]

/-- One read command for each partial block, in order, and no other. -/
theorem preload_reads (holds : maps.nvme.Holds extents)
    (short : extents.length ≤ maxExtentsPerFile) (bound : total extents < 2 ^ 64)
    (addressable : Addressable extents) (nonempty : 0 < address.size)
    (fits : address.addr + address.size ≤ 2 ^ 64)
    (inside : address.addr + address.size ≤ total extents * storageBlockSize) :
    List.Forall₂ (ReadsBlock extents) (preloadNvmeBlocks address maps).1
      address.partialBlocks := by
  obtain ⟨mapsEnd, endAddr, endEq, kept, reads⟩ := preloadNvmeBlocks_eq maps nonempty fits
  rw [reads, partialBlocks_eq nonempty]
  have span := blockSpan_eq nonempty
  apply List.rel_append
  · split
    · refine List.Forall₂.cons ?_ List.Forall₂.nil
      apply preloadBlock_reads holds short bound addressable
      rw [storageBlockSize_eq] at inside ⊢
      omega
    · exact List.Forall₂.nil
  · split
    · rename_i branch
      have last : endAddr / storageBlockSize =
          address.addr / storageBlockSize + address.blockSpan := by
        rw [endEq branch.1, ← span]
        have odd := branch.1
        rw [storageBlockSize_eq] at odd ⊢
        omega
      refine List.Forall₂.cons ?_ List.Forall₂.nil
      rw [← last]
      refine preloadBlock_reads ?_ short bound addressable ?_
      · rcases kept with rfl | rfl
        · exact holds
        · exact preloadBlock_nvme holds _
      · rw [last, ← span]
        rw [storageBlockSize_eq] at inside ⊢
        omega
    · exact List.Forall₂.nil

end Reads

/-! ## Reading and writing back -/

/-- In every run of the write, each block that was preloaded and is written back is
written from where it was read to, to where it was read from. -/
def WritesBack (transfer : Address) (maps : Extmaps) : Prop :=
  ∀ dmSts writes, writeData transfer (preloadNvmeBlocks transfer maps).2 dmSts = some writes →
    ∀ (j block : Nat) (read write : NvmeCommand), transfer.partialBlocks[j]? = some block →
      (preloadNvmeBlocks transfer maps).1[j]? = some read →
      writes[block - transfer.addr / storageBlockSize]? = some write →
      read.nvmeBlockOffset = write.nvmeBlockOffset ∧ read.dramOffset = write.dramOffset

/-- The blocks lie below `NVMeDRAMBaseOffset`. -/
def BelowNvmeWindow (extents : List Segment) : Prop :=
  ∀ s ∈ extents, s.start + s.count ≤ nvmeDRAMBaseOffset / storageBlockSize

instance (extents : List Segment) : Decidable (BelowNvmeWindow extents) :=
  inferInstanceAs (Decidable (∀ s ∈ extents, _))

section Cursor

variable {map : Extmap} {extents : List Segment}

theorem extent_low (holds : map.Holds extents) (low : BelowNvmeWindow extents) (i : Nat) :
    map.extentsBegin i + map.extentsCount i ≤ 2 ^ 15 := by
  rw [holds.extentsBegin, holds.extentsCount]
  simp only [mtlExtmapLoad, mapExtents]
  cases found : extents[i]? with
  | none => exact Nat.zero_le _
  | some s =>
    have window : s.start + s.count ≤ 2 ^ 15 := low s (List.mem_of_getElem? found)
    simp only [u64_of_lt (show s.start < 2 ^ 64 by omega),
      u64_of_lt (show s.count < 2 ^ 64 by omega)]
    exact window

/-- The cursor is in the current extent or on the block behind it. -/
def Extmap.InExtent (map : Extmap) : Prop :=
  map.extentsBegin map.currentExtent ≤ map.currentPblock ∧
    map.currentPblock ≤ map.extentsBegin map.currentExtent + map.extentsCount map.currentExtent

theorem mtlExtmapNext_inExtent (holds : map.Holds extents) (low : BelowNvmeWindow extents)
    (inExtent : map.InExtent) : (mtlExtmapNext map).Holds extents ∧ (mtlExtmapNext map).InExtent := by
  have window := extent_low holds low map.currentExtent
  obtain ⟨above, below⟩ := inExtent
  unfold mtlExtmapNext
  dsimp only
  split
  · rename_i inside
    have boffset : u64 (map.currentPblock + 2 ^ 64 - map.extentsBegin map.currentExtent) =
        map.currentPblock - map.extentsBegin map.currentExtent := by
      unfold u64
      omega
    rw [boffset] at inside
    refine ⟨holds.moveTo _ _, ?_⟩
    unfold Extmap.InExtent
    simp only [Extmap.moveTo_currentExtent, Extmap.moveTo_currentPblock,
      Extmap.moveTo_extentsBegin, Extmap.moveTo_extentsCount,
      u64_of_lt (show map.currentPblock + 1 < 2 ^ 64 by omega)]
    omega
  · refine ⟨holds.moveTo _ _, Nat.le_refl _, Nat.le_add_right _ _⟩

/-- No walk leaves the low blocks. -/
theorem walk_low (holds : map.Holds extents) (short : extents.length ≤ maxExtentsPerFile)
    (bound : total extents < 2 ^ 64) (low : BelowNvmeWindow extents) {lblock : Nat}
    (below : lblock < total extents) (k : Nat) :
    mtlExtmapPblock (mtlExtmapNext^[k] (mtlExtmapSeek map lblock).1) ≤ 2 ^ 15 := by
  have steps : (mtlExtmapNext^[k] (mtlExtmapSeek map lblock).1).Holds extents ∧
      (mtlExtmapNext^[k] (mtlExtmapSeek map lblock).1).InExtent := by
    induction k with
    | zero =>
      refine ⟨holds.seek lblock, ?_⟩
      obtain ⟨before, s, rest, offset, rfl, rfl, inside⟩ := exists_split below
      have window : s.start + s.count ≤ 2 ^ 15 := low s (by simp)
      have begins := holds.begins
      have counts := holds.counts bound
      rw [u64_of_lt (show s.start < 2 ^ 64 by omega)] at begins
      rw [Function.iterate_zero, id_eq, mtlExtmapSeek_split holds short bound inside,
        u64_of_lt (by omega)]
      unfold Extmap.InExtent
      simp only [Extmap.moveTo_currentExtent, Extmap.moveTo_currentPblock,
        Extmap.moveTo_extentsBegin, Extmap.moveTo_extentsCount, begins, counts]
      omega
    | succ k ih =>
      rw [Function.iterate_succ_apply']
      exact mtlExtmapNext_inExtent ih.1 low ih.2
  have window := extent_low steps.1 low
    (mtlExtmapNext^[k] (mtlExtmapSeek map lblock).1).currentExtent
  exact Nat.le_trans steps.2.2 window

end Cursor

section Addresses

variable {transfer : Address} {maps : Extmaps}

theorem preloadNvmeBlocks_dram {extents : List Segment} (holds : maps.dram.Holds extents) :
    (preloadNvmeBlocks transfer maps).2.dram.Holds extents := by
  have middle : (if transfer.addr % storageBlockSize ≠ 0 then
      (preloadBlock transfer.map maps transfer.addr).2 else maps).dram.Holds extents := by
    split
    · exact preloadBlock_dram holds _
    · exact holds
  unfold preloadNvmeBlocks
  dsimp only
  generalize (if transfer.addr % storageBlockSize ≠ 0 then
    (preloadBlock transfer.map maps transfer.addr).2 else maps) = maps' at middle ⊢
  generalize (if 0 < transfer.size then transfer.size else 1) = size
  split
  · exact preloadBlock_dram middle _
  · exact middle

theorem read_dramOffset_nvme (maps : Extmaps) (byteAddr : Nat) :
    (preloadBlock .nvme maps byteAddr).1.dramOffset < 2 ^ 32 := by
  unfold preloadBlock issueNvmeBlockTransferCommand nvmeDRAMWriteOffset u64
  dsimp only
  omega

theorem write_dramOffset_nvme (nvme : transfer.map = .nvme) (maps : Extmaps)
    (bytes nvmeAddress : Nat) :
    2 ^ 33 ≤ (writeCommand (partialTransfer .write transfer maps bytes) nvmeAddress).dramOffset := by
  simp only [writeCommand, issueNvmeBlockTransferCommand, partialTransfer, translate, nvme,
    nvmeDRAMBaseOffset, nvmeDRAMWriteOffset, storageBlockSize_eq, u64]
  omega

theorem read_dramOffset_both (maps : Extmaps) (byteAddr : Nat) :
    (preloadBlock .dramAndNvme maps byteAddr).1.dramOffset =
      u64 (mtlExtmapPblock (mtlExtmapSeek maps.dram
        (byteAddr % pagefileSize / storageBlockSize)).1 * storageBlockSize) := by
  unfold preloadBlock issueNvmeBlockTransferCommand
  dsimp only
  generalize mtlExtmapPblock (mtlExtmapSeek maps.dram _).1 = pblock
  rw [storageBlockSize_eq]
  unfold u64
  omega

theorem write_dramOffset_both (both : transfer.map = .dramAndNvme) (maps : Extmaps)
    (bytes nvmeAddress : Nat) :
    (writeCommand (partialTransfer .write transfer maps bytes) nvmeAddress).dramOffset =
      u64 ((mtlExtmapPblock maps.dram + 2 ^ 15) * storageBlockSize) := by
  simp only [writeCommand, issueNvmeBlockTransferCommand, partialTransfer, translate, both,
    blockAddress, nvmeDRAMBaseOffset, storageBlockSize_eq, u64]
  omega

end Addresses

section WriteBack

variable {transfer : Address} {maps : Extmaps} {extents : List Segment}

/-- The place a block is read to is not the one it is written back from: in the
first block of the range, and in every block if DRAM ends below the NVMe window. -/
theorem dramOffset_ne (uses : transfer.map = .nvme ∨ transfer.map = .dramAndNvme)
    {maps' : Extmaps} (holds : maps.dram.Holds extents) (holds' : maps'.dram.Holds extents)
    (short : extents.length ≤ maxExtentsPerFile) (bound : total extents < 2 ^ 64)
    {byteAddr k : Nat} (nvmeAddress : Nat)
    (staged : transfer.map = .dramAndNvme →
      byteAddr % pagefileSize / storageBlockSize < total extents ∧
        transfer.addr % pagefileSize / storageBlockSize < total extents)
    (apart : transfer.map = .nvme ∨ byteAddr = transfer.addr ∧ k = 0 ∨ BelowNvmeWindow extents) :
    (preloadBlock transfer.map maps byteAddr).1.dramOffset ≠
      (writeCommand (partialTransfer .write transfer
        ((Extmaps.next transfer.map)^[k] (maps'.seek transfer)) (transfer.roundStart k))
          nvmeAddress).dramOffset := by
  rcases uses with nvme | both
  · have read := read_dramOffset_nvme maps byteAddr
    have write := write_dramOffset_nvme nvme
      ((Extmaps.next transfer.map)^[k] (maps'.seek transfer)) (transfer.roundStart k) nvmeAddress
    rw [nvme] at write ⊢
    omega
  · obtain ⟨inRead, inWrite⟩ := staged both
    have cursor := Extmaps.next_dram_iterate k (Or.inr both) (maps'.seek transfer)
    have sought : (maps'.seek transfer).dram =
        (mtlExtmapSeek maps'.dram (transfer.addr % pagefileSize / storageBlockSize)).1 := by
      rw [Extmaps.seek, both]
    obtain ⟨base, located⟩ := exists_locate inRead
    rw [write_dramOffset_both both, cursor, sought, both, read_dramOffset_both,
      mtlExtmapSeek_locate holds short bound located]
    rcases apart with nvme | ⟨rfl, rfl⟩ | low
    · rw [nvme] at both
      cases both
    · rw [Function.iterate_zero, id_eq, mtlExtmapSeek_locate holds' short bound located,
        storageBlockSize_eq]
      unfold u64
      omega
    · have walk := walk_low holds' short bound low inWrite k
      generalize mtlExtmapPblock (mtlExtmapNext^[k] _) = pblock at walk ⊢
      obtain ⟨s, member, contains⟩ := locate_mem located
      have window : s.start + s.count ≤ 2 ^ 15 := low s member
      have := contains.2
      rw [storageBlockSize_eq]
      unfold u64
      omega

theorem writesBack_of_aligned (nonempty : 0 < transfer.size) (aligned : transfer.Aligned) :
    WritesBack transfer maps := by
  intro dmSts writes run j block read write partialBlock
  rw [partialBlocks_eq nonempty, if_neg (fun odd => odd aligned.1),
    if_neg (fun odd => odd.1 aligned.2)] at partialBlock
  cases partialBlock

theorem aligned_of_writesBack (nvmeType : transfer.type = .nvme)
    (uses : transfer.map = .nvme ∨ transfer.map = .dramAndNvme) (nonempty : 0 < transfer.size)
    (fits : transfer.addr + transfer.size ≤ 2 ^ 64) (holds : maps.dram.Holds extents)
    (short : extents.length ≤ maxExtentsPerFile) (bound : total extents < 2 ^ 64)
    (staged : transfer.map = .dramAndNvme → ∀ byte, transfer.addr ≤ byte →
      byte < transfer.addr + transfer.size →
        byte % pagefileSize / storageBlockSize < total extents)
    (apart : transfer.map = .nvme ∨ transfer.addr % storageBlockSize ≠ 0 ∨
      BelowNvmeWindow extents)
    (back : WritesBack transfer maps) : transfer.Aligned := by
  obtain ⟨dmSts, writes, run, length⟩ : ∃ dmSts writes,
      writeData transfer (preloadNvmeBlocks transfer maps).2 dmSts = some writes ∧
        writes.length = transfer.blockSpan + 1 := writeData_complete nvmeType nonempty uses
  obtain ⟨mapsEnd, endAddr, endEq, kept, reads⟩ := preloadNvmeBlocks_eq maps nonempty fits
  have blocks := partialBlocks_eq nonempty
  have holds' : (preloadNvmeBlocks transfer maps).2.dram.Holds extents :=
    preloadNvmeBlocks_dram holds
  have stagedStart : transfer.map = .dramAndNvme →
      transfer.addr % pagefileSize / storageBlockSize < total extents :=
    fun both => staged both transfer.addr (Nat.le_refl _) (by omega)
  have written : ∀ k ≤ transfer.blockSpan, ∃ write nvmeAddress, writes[k]? = some write ∧
      write = writeCommand (partialTransfer .write transfer
        ((Extmaps.next transfer.map)^[k] ((preloadNvmeBlocks transfer maps).2.seek transfer))
          (transfer.roundStart k)) nvmeAddress := by
    intro k round
    have present := List.getElem?_eq_getElem (l := writes) (show k < writes.length by omega)
    obtain ⟨-, nvmeAddress, command⟩ := writeData_command nvmeType nonempty run present
    exact ⟨_, nvmeAddress, present, command⟩
  rcases Nat.eq_zero_or_pos (transfer.addr % storageBlockSize) with startEven | startOdd
  · refine ⟨startEven, ?_⟩
    rcases Nat.eq_zero_or_pos ((transfer.addr + transfer.size) % storageBlockSize) with
      endEven | endOdd
    · exact endEven
    · exfalso
      have odd : (transfer.addr + transfer.size) % storageBlockSize ≠ 0 := by omega
      have branch : (transfer.addr + transfer.size) % storageBlockSize ≠ 0 ∧
          (transfer.blockSpan ≠ 0 ∨ ¬ transfer.addr % storageBlockSize ≠ 0) :=
        ⟨odd, Or.inr fun notZero => notZero startEven⟩
      rw [if_neg (fun notZero => notZero startEven), if_pos branch, List.nil_append] at blocks reads
      obtain ⟨write, nvmeAddress, present, rfl⟩ := written transfer.blockSpan (Nat.le_refl _)
      have pair := back dmSts writes run 0 _ _ _ (by rw [blocks]; rfl) (by rw [reads]; rfl)
        (by rw [Nat.add_sub_cancel_left]; exact present)
      refine dramOffset_ne uses ?_ holds' short bound nvmeAddress ?_ ?_ pair.2
      · rcases kept with rfl | rfl
        · exact holds
        · exact preloadBlock_dram holds _
      · intro both
        refine ⟨?_, stagedStart both⟩
        have last := staged both (transfer.addr + transfer.size - 1) (by omega) (by omega)
        rw [endEq odd]
        unfold pagefileSize at last ⊢
        rw [storageBlockSize_eq] at last odd ⊢
        omega
      · rcases apart with nvme | startOdd | low
        · exact Or.inl nvme
        · exact absurd startEven startOdd
        · exact Or.inr (Or.inr low)
  · exfalso
    have odd : transfer.addr % storageBlockSize ≠ 0 := by omega
    rw [if_pos odd, List.singleton_append] at blocks reads
    obtain ⟨write, nvmeAddress, present, rfl⟩ := written 0 (Nat.zero_le _)
    have pair := back dmSts writes run 0 _ _ _ (by rw [blocks]; rfl) (by rw [reads]; rfl)
      (by rw [Nat.sub_self]; exact present)
    exact dramOffset_ne uses holds holds' short bound nvmeAddress
      (fun both => ⟨stagedStart both, stagedStart both⟩) (Or.inr (Or.inl ⟨rfl, rfl⟩)) pair.2

end WriteBack

/-- A write to NVMe whose blocks all lie inside the loaded maps. -/
structure NvmeWrite (transfer : Address) (maps : Extmaps)
    (dramExtents nvmeExtents : List Segment) : Prop where
  type : transfer.type = .nvme
  map : transfer.map = .nvme ∨ transfer.map = .dramAndNvme
  nonempty : 0 < transfer.size
  fits : transfer.addr + transfer.size ≤ 2 ^ 64
  nvmeHolds : maps.nvme.Holds nvmeExtents
  nvmeShort : nvmeExtents.length ≤ maxExtentsPerFile
  nvmeBound : total nvmeExtents < 2 ^ 64
  nvmeAddressable : Addressable nvmeExtents
  inside : transfer.addr + transfer.size ≤ total nvmeExtents * storageBlockSize
  dramHolds : maps.dram.Holds dramExtents
  dramShort : dramExtents.length ≤ maxExtentsPerFile
  dramBound : total dramExtents < 2 ^ 64
  staged : transfer.map = .dramAndNvme → ∀ byte, transfer.addr ≤ byte →
    byte < transfer.addr + transfer.size → byte % pagefileSize / storageBlockSize < total dramExtents

/-- The partially covered blocks are read once each, and no other.  They are written
back from where they were read to if there are none, and in no other case: with the
map `NVMe`, when the range begins inside a block, or when DRAM ends below the
window through which NVMe sees it. -/
theorem preloads_written_back_iff_aligned {transfer : Address} {maps : Extmaps}
    {dramExtents nvmeExtents : List Segment}
    (write : NvmeWrite transfer maps dramExtents nvmeExtents) :
    List.Forall₂ (ReadsBlock nvmeExtents) (preloadNvmeBlocks transfer maps).1
      transfer.partialBlocks ∧
    (transfer.Aligned → WritesBack transfer maps) ∧
    (transfer.map = .nvme ∨ transfer.addr % storageBlockSize ≠ 0 ∨ BelowNvmeWindow dramExtents →
      WritesBack transfer maps → transfer.Aligned) := by
  refine ⟨?_, ?_, ?_⟩
  · exact preload_reads write.nvmeHolds write.nvmeShort write.nvmeBound write.nvmeAddressable
      write.nonempty write.fits write.inside
  · exact writesBack_of_aligned write.nonempty
  · exact aligned_of_writesBack write.type write.map write.nonempty write.fits write.dramHolds
      write.dramShort write.dramBound write.staged

/-- The maps of a file on NVMe and of the pagefile. -/
def nvmeMaps : Extmaps :=
  ⟨mtlExtmapLoad (mapExtents [⟨0, 128⟩]), mtlExtmapLoad (mapExtents [⟨7, 40⟩])⟩

theorem nvmeMaps_write (addr size : Nat) (nonempty : 0 < size)
    (inside : addr + size ≤ 40 * storageBlockSize) :
    NvmeWrite ⟨addr, size, .nvme, .nvme⟩ nvmeMaps [⟨0, 128⟩] [⟨7, 40⟩] where
  type := rfl
  map := Or.inl rfl
  nonempty := nonempty
  fits := by
    rw [storageBlockSize_eq] at inside
    dsimp only
    omega
  nvmeHolds := holds_load _
  nvmeShort := by decide
  nvmeBound := by decide
  nvmeAddressable := by unfold Addressable; decide
  inside := inside
  dramHolds := holds_load _
  dramShort := by decide
  dramBound := by decide
  staged := nofun

/-- Two whole blocks are not read and written back; of a range inside the first block, this block is
read, from where the file has it. -/
theorem preloads_written_back_iff_aligned_wholeBlocks :
    (preloadNvmeBlocks ⟨2 ^ 18, 2 * 2 ^ 18, .nvme, .nvme⟩ nvmeMaps).1 = [] ∧
      WritesBack ⟨2 ^ 18, 2 * 2 ^ 18, .nvme, .nvme⟩ nvmeMaps ∧
      List.Forall₂ (ReadsBlock [⟨7, 40⟩])
        (preloadNvmeBlocks ⟨42, 100, .nvme, .nvme⟩ nvmeMaps).1 [0] := by
  obtain ⟨reads, back, -⟩ := preloads_written_back_iff_aligned
    (nvmeMaps_write (2 ^ 18) (2 * 2 ^ 18) (by decide) (by decide))
  obtain ⟨partially, -, -⟩ := preloads_written_back_iff_aligned
    (nvmeMaps_write 42 100 (by decide) (by decide))
  refine ⟨?_, back (by decide), ?_⟩
  · have none : (⟨2 ^ 18, 2 * 2 ^ 18, .nvme, .nvme⟩ : Address).partialBlocks = [] := by decide
    rw [none] at reads
    exact List.forall₂_nil_right_iff.mp reads
  · have first : (⟨42, 100, .nvme, .nvme⟩ : Address).partialBlocks = [0] := by decide
    rw [first] at partially
    exact partially

/-- A write into the middle of a block is written back from a place in DRAM that
was not preloaded. -/
theorem middleWrite_not_written_back :
    NvmeWrite ⟨42, 100, .nvme, .nvme⟩ nvmeMaps [⟨0, 128⟩] [⟨7, 40⟩] ∧
      ¬ WritesBack ⟨42, 100, .nvme, .nvme⟩ nvmeMaps := by
  refine ⟨nvmeMaps_write 42 100 (by decide) (by decide), ?_⟩
  intro back
  have run : writeData ⟨42, 100, .nvme, .nvme⟩
      (preloadNvmeBlocks ⟨42, 100, .nvme, .nvme⟩ nvmeMaps).2 [⟨true, 100⟩] =
        some [⟨2 ^ 33 + 2 ^ 31, 7 * 512, 511, 0⟩] := by decide +kernel
  have pair := back _ _ run 0 0 ⟨2 ^ 31, 7 * 512, 511, 0⟩ ⟨2 ^ 33 + 2 ^ 31, 7 * 512, 511, 0⟩
    (by decide) (by decide +kernel) (by decide)
  exact absurd pair.2 (by decide)

end MetalFs.Fpga
