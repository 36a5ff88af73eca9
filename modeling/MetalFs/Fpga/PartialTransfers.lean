import MetalFs.Fpga.Extmap

/-!
# Partial transfers

`issue_partial_transfers` of `mtl_op_mem.hpp`: a transfer is cut at the borders of
the storage blocks, and each part is translated with the block under the cursor of
the extent maps, which then moves on.

`issuePartialTransfers_eq` is the loop in closed form: part `k` belongs to the
`k`-th block of the byte range and sees the maps after `k` moves.
-/

namespace MetalFs.Fpga

open Segments

/-- `AddressType`. -/
inductive AddressType where
  | host
  | cardDRAM
  | nvme
  | null
  | random
deriving DecidableEq, Repr

/-- `MapType`. -/
inductive MapType where
  | none
  | dram
  | nvme
  | dramAndNvme
deriving DecidableEq, Repr

/-- `Address`: `addr` has 64 bits, `size` 32. -/
structure Address where
  addr : Nat
  size : Nat
  type : AddressType
  map : MapType
deriving DecidableEq, Repr

/-- `Transfer`. -/
structure Transfer where
  address : Nat
  size : Nat
  type : AddressType
deriving DecidableEq, Repr

/-- `TransferElement`. -/
structure TransferElement where
  data : Transfer
  last : Bool
deriving DecidableEq, Repr

/-- `TransferType`. -/
inductive TransferType where
  | read
  | write
deriving DecidableEq, Repr

/-- `NVMeDRAMReadOffset`. -/
def nvmeDRAMReadOffset : Nat := 0

/-- `NVMeDRAMWriteOffset`. -/
def nvmeDRAMWriteOffset : Nat := 2 ^ 31

/-- `dram_extentmap` and `nvme_extentmap`. -/
structure Extmaps where
  dram : Extmap
  nvme : Extmap

/-- The seeks before the loop. -/
def Extmaps.seek (maps : Extmaps) (transfer : Address) : Extmaps :=
  match transfer.map with
  | .dram => { maps with dram := (mtlExtmapSeek maps.dram (transfer.addr / storageBlockSize)).1 }
  | .nvme => { maps with nvme := (mtlExtmapSeek maps.nvme (transfer.addr / storageBlockSize)).1 }
  | .dramAndNvme =>
    { nvme := (mtlExtmapSeek maps.nvme (transfer.addr / storageBlockSize)).1
      dram := (mtlExtmapSeek maps.dram (transfer.addr % pagefileSize / storageBlockSize)).1 }
  | .none => maps

/-- The cursors move on at the end of a round. -/
def Extmaps.next (map : MapType) (maps : Extmaps) : Extmaps :=
  match map with
  | .dram => { maps with dram := mtlExtmapNext maps.dram }
  | .nvme => { maps with nvme := mtlExtmapNext maps.nvme }
  | .dramAndNvme => ⟨mtlExtmapNext maps.dram, mtlExtmapNext maps.nvme⟩
  | .none => maps

/-- The address of the block under the cursor, at the offset of `currentAddress`. -/
def blockAddress (map : Extmap) (currentAddress : Nat) : Nat :=
  u64 (mtlExtmapPblock map * storageBlockSize + currentAddress % storageBlockSize)

/-- The address translation of a round: the address of the element, and what goes
to `nvme_transfers`. -/
def translate (T : TransferType) (map : MapType) (maps : Extmaps) (currentAddress : Nat) :
    Nat × List Nat :=
  match map with
  | .dram => (blockAddress maps.dram currentAddress, [])
  | .nvme =>
    let offset := match T with
      | .read => nvmeDRAMReadOffset
      | .write => nvmeDRAMWriteOffset
    (u64 (offset + currentAddress % 2 ^ 31), [blockAddress maps.nvme currentAddress])
  | .dramAndNvme =>
    (blockAddress maps.dram currentAddress, [blockAddress maps.nvme currentAddress])
  | .none => (currentAddress, [])

/-- `current_address`. -/
def currentAddress (transfer : Address) (bytesTransferred : Nat) : Nat :=
  u64 (transfer.addr + bytesTransferred)

/-- `bytes_this_round`. -/
def bytesThisRound (transfer : Address) (bytesTransferred : Nat) : Nat :=
  let bytesRemaining := transfer.size - bytesTransferred
  let transferLimit :=
    storageBlockSize - currentAddress transfer bytesTransferred % storageBlockSize
  if bytesRemaining ≤ transferLimit then bytesRemaining else transferLimit

/-- The element of a round. -/
def partialTransfer (T : TransferType) (transfer : Address) (maps : Extmaps)
    (bytesTransferred : Nat) : TransferElement where
  data :=
    { address := (translate T transfer.map maps (currentAddress transfer bytesTransferred)).1
      size := bytesThisRound transfer bytesTransferred
      type := transfer.type }
  last := bytesThisRound transfer bytesTransferred = transfer.size - bytesTransferred

/-- The entries a round adds to `nvme_transfers`. -/
def nvmeTransfer (T : TransferType) (transfer : Address) (maps : Extmaps)
    (bytesTransferred : Nat) : List Nat :=
  (translate T transfer.map maps (currentAddress transfer bytesTransferred)).2

/-- The streams and the maps when `issue_partial_transfers` returns. -/
structure Issued where
  partialTransfers : List TransferElement
  nvmeTransfers : List Nat
  extmaps : Extmaps

/-- The loop; a round transfers at least a byte, which bounds their number. -/
def issueLoop (T : TransferType) (transfer : Address) : Nat → Nat → Extmaps → Issued
  | 0, _, maps => ⟨[], [], maps⟩
  | fuel + 1, bytesTransferred, maps =>
    if bytesTransferred < transfer.size then
      let later := issueLoop T transfer fuel
        (bytesTransferred + bytesThisRound transfer bytesTransferred) (maps.next transfer.map)
      { partialTransfers :=
          partialTransfer T transfer maps bytesTransferred :: later.partialTransfers
        nvmeTransfers := nvmeTransfer T transfer maps bytesTransferred ++ later.nvmeTransfers
        extmaps := later.extmaps }
    else ⟨[], [], maps⟩

/-- `issue_partial_transfers`. -/
def issuePartialTransfers (T : TransferType) (transfer : Address) (maps : Extmaps) : Issued :=
  issueLoop T transfer transfer.size 0 (maps.seek transfer)

/-! ## The rounds -/

/-- The blocks of the range behind its first one. -/
def Address.blockSpan (transfer : Address) : Nat :=
  (transfer.addr + transfer.size - 1) / storageBlockSize - transfer.addr / storageBlockSize

/-- The bytes of the rounds before round `k`. -/
def Address.roundStart (transfer : Address) (k : Nat) : Nat :=
  if k = 0 then 0
  else min transfer.size ((transfer.addr / storageBlockSize + k) * storageBlockSize - transfer.addr)

section Rounds

variable {T : TransferType} {transfer : Address} {k : Nat}

theorem storageBlockSize_eq : storageBlockSize = 262144 := rfl

theorem roundStart_lt (nonempty : 0 < transfer.size) (round : k ≤ transfer.blockSpan) :
    transfer.roundStart k < transfer.size := by
  unfold Address.blockSpan at round
  unfold Address.roundStart
  rw [storageBlockSize_eq] at round ⊢
  split <;> omega

/-- Round `k` begins in the `k`-th block of the range. -/
theorem roundStart_block (nonempty : 0 < transfer.size) (round : k ≤ transfer.blockSpan) :
    (transfer.addr + transfer.roundStart k) / storageBlockSize =
      transfer.addr / storageBlockSize + k := by
  unfold Address.blockSpan at round
  unfold Address.roundStart
  rw [storageBlockSize_eq] at round ⊢
  split <;> omega

theorem currentAddress_mod (transfer : Address) (bytesTransferred : Nat) :
    currentAddress transfer bytesTransferred % storageBlockSize =
      (transfer.addr + bytesTransferred) % storageBlockSize := by
  unfold currentAddress u64
  rw [storageBlockSize_eq]
  omega

/-- A round goes to the end of the transfer or of the block. -/
theorem bytesThisRound_eq (transfer : Address) (bytesTransferred : Nat) :
    bytesThisRound transfer bytesTransferred = min (transfer.size - bytesTransferred)
      (storageBlockSize - (transfer.addr + bytesTransferred) % storageBlockSize) := by
  unfold bytesThisRound
  rw [currentAddress_mod]
  exact min_def .. |>.symm

theorem bytesThisRound_pos {bytes : Nat} (begins : bytes < transfer.size) :
    0 < bytesThisRound transfer bytes := by
  rw [bytesThisRound_eq, storageBlockSize_eq]
  omega

theorem roundStart_succ (nonempty : 0 < transfer.size) (round : k ≤ transfer.blockSpan) :
    transfer.roundStart k + bytesThisRound transfer (transfer.roundStart k) =
      transfer.roundStart (k + 1) := by
  have begins := roundStart_lt nonempty round
  rw [bytesThisRound_eq]
  unfold Address.roundStart at begins ⊢
  rw [if_neg (Nat.succ_ne_zero k)]
  rw [storageBlockSize_eq] at begins ⊢
  rcases Nat.eq_zero_or_pos k with rfl | later
  · rw [if_pos rfl]
    omega
  · rw [if_neg (by omega)] at begins ⊢
    omega

theorem roundStart_end (nonempty : 0 < transfer.size) (done : transfer.blockSpan < k) :
    transfer.roundStart k = transfer.size := by
  unfold Address.blockSpan at done
  unfold Address.roundStart
  rw [storageBlockSize_eq] at done ⊢
  rw [if_neg (by omega)]
  omega

/-- The loop from round `k` on. -/
theorem issueLoop_eq (nonempty : 0 < transfer.size) {fuel : Nat} (maps : Extmaps)
    (enough : transfer.size - transfer.roundStart k ≤ fuel) :
    issueLoop T transfer fuel (transfer.roundStart k) maps =
      { partialTransfers := (List.range (transfer.blockSpan + 1 - k)).map fun j =>
          partialTransfer T transfer ((Extmaps.next transfer.map)^[j] maps)
            (transfer.roundStart (k + j))
        nvmeTransfers := (List.range (transfer.blockSpan + 1 - k)).flatMap fun j =>
          nvmeTransfer T transfer ((Extmaps.next transfer.map)^[j] maps)
            (transfer.roundStart (k + j))
        extmaps := (Extmaps.next transfer.map)^[transfer.blockSpan + 1 - k] maps } := by
  induction fuel generalizing k maps with
  | zero =>
    have done : transfer.blockSpan < k := by
      rcases Nat.lt_or_ge transfer.blockSpan k with done | round
      · exact done
      · have := roundStart_lt nonempty round
        omega
    rw [Nat.sub_eq_zero_of_le done]
    rfl
  | succ fuel ih =>
    unfold issueLoop
    rcases Nat.lt_or_ge transfer.blockSpan k with done | round
    · rw [if_neg (by rw [roundStart_end nonempty done]; omega), Nat.sub_eq_zero_of_le done]
      rfl
    · have begins := roundStart_lt nonempty round
      have step := roundStart_succ nonempty round
      have progress := bytesThisRound_pos begins
      have rounds : transfer.blockSpan + 1 - k = (transfer.blockSpan + 1 - (k + 1)) + 1 := by
        omega
      rw [if_pos begins, step, ih (maps.next transfer.map) (by omega), rounds,
        List.range_succ_eq_map]
      simp only [List.map_cons, List.map_map, List.flatMap_cons, List.flatMap_map,
        Function.comp_def, Function.iterate_succ_apply, Function.iterate_zero, id_eq, Nat.add_zero,
        Nat.succ_eq_add_one, Nat.add_assoc, Nat.add_comm 1]

theorem issuePartialTransfers_eq (nonempty : 0 < transfer.size) (maps : Extmaps) :
    issuePartialTransfers T transfer maps =
      { partialTransfers := (List.range (transfer.blockSpan + 1)).map fun k =>
          partialTransfer T transfer ((Extmaps.next transfer.map)^[k] (maps.seek transfer))
            (transfer.roundStart k)
        nvmeTransfers := (List.range (transfer.blockSpan + 1)).flatMap fun k =>
          nvmeTransfer T transfer ((Extmaps.next transfer.map)^[k] (maps.seek transfer))
            (transfer.roundStart k)
        extmaps := (Extmaps.next transfer.map)^[transfer.blockSpan + 1] (maps.seek transfer) } := by
  have whole := issueLoop_eq (T := T) (k := 0) nonempty (maps.seek transfer)
    (Nat.sub_le transfer.size (transfer.roundStart 0))
  simp only [Nat.zero_add, Nat.sub_zero] at whole
  exact whole

end Rounds

/-! ## What the elements carry -/

/-- The bytes of the elements before element `k`. -/
def Issued.bytesBefore (issued : Issued) (k : Nat) : Nat :=
  ((issued.partialTransfers.take k).map fun element => element.data.size).sum

/-- The address that element `k` gets from the map: its own address, or the one that
goes to `nvme_transfers`. -/
def Issued.mapped (issued : Issued) (map : MapType) (k : Nat) : Option Nat :=
  match map with
  | .nvme => issued.nvmeTransfers[k]?
  | _ => issued.partialTransfers[k]?.map fun element => element.data.address

/-- The extent map behind a map type. -/
def Extmaps.mapped (maps : Extmaps) (map : MapType) : Extmap :=
  match map with
  | .nvme => maps.nvme
  | _ => maps.dram

section Elements

variable {T : TransferType} {transfer : Address} {maps : Extmaps} {k : Nat}

theorem issued_length (nonempty : 0 < transfer.size) :
    (issuePartialTransfers T transfer maps).partialTransfers.length = transfer.blockSpan + 1 := by
  simp only [issuePartialTransfers_eq nonempty, List.length_map, List.length_range]

theorem issued_bytesBefore (nonempty : 0 < transfer.size) (round : k ≤ transfer.blockSpan + 1) :
    (issuePartialTransfers T transfer maps).bytesBefore k = transfer.roundStart k := by
  simp only [Issued.bytesBefore, issuePartialTransfers_eq nonempty, ← List.map_take,
    List.take_range, Nat.min_eq_left round, List.map_map, Function.comp_def, partialTransfer]
  induction k with
  | zero => rfl
  | succ k ih =>
    rw [List.range_succ, List.map_append, List.sum_append, ih (by omega),
      ← roundStart_succ nonempty (by omega)]
    simp

theorem issued_element (nonempty : 0 < transfer.size) (round : k ≤ transfer.blockSpan) :
    (issuePartialTransfers T transfer maps).partialTransfers[k]? =
      some (partialTransfer T transfer ((Extmaps.next transfer.map)^[k] (maps.seek transfer))
        (transfer.roundStart k)) := by
  simp only [issuePartialTransfers_eq nonempty, List.getElem?_map,
    List.getElem?_range (Nat.lt_succ_of_le round), Option.map_some]

theorem Extmaps.next_dram_iterate (k : Nat) {map : MapType}
    (uses : map = .dram ∨ map = .dramAndNvme) (maps : Extmaps) :
    ((Extmaps.next map)^[k] maps).dram = mtlExtmapNext^[k] maps.dram := by
  induction k with
  | zero => rfl
  | succ k ih =>
    rw [Function.iterate_succ_apply', Function.iterate_succ_apply', ← ih]
    rcases uses with rfl | rfl <;> rfl

theorem Extmaps.next_nvme_iterate (k : Nat) {map : MapType}
    (uses : map = .nvme ∨ map = .dramAndNvme) (maps : Extmaps) :
    ((Extmaps.next map)^[k] maps).nvme = mtlExtmapNext^[k] maps.nvme := by
  induction k with
  | zero => rfl
  | succ k ih =>
    rw [Function.iterate_succ_apply', Function.iterate_succ_apply', ← ih]
    rcases uses with rfl | rfl <;> rfl

/-- With an NVMe map every round adds one entry to `nvme_transfers`. -/
theorem issued_nvmeTransfers (nonempty : 0 < transfer.size)
    (uses : transfer.map = .nvme ∨ transfer.map = .dramAndNvme) :
    (issuePartialTransfers T transfer maps).nvmeTransfers =
      (List.range (transfer.blockSpan + 1)).map fun k =>
        blockAddress
          (mtlExtmapNext^[k] (mtlExtmapSeek maps.nvme (transfer.addr / storageBlockSize)).1)
          (currentAddress transfer (transfer.roundStart k)) := by
  have pushed : ∀ k,
      nvmeTransfer T transfer ((Extmaps.next transfer.map)^[k] (maps.seek transfer))
        (transfer.roundStart k) =
      [blockAddress
        (mtlExtmapNext^[k] (mtlExtmapSeek maps.nvme (transfer.addr / storageBlockSize)).1)
        (currentAddress transfer (transfer.roundStart k))] := by
    intro k
    have cursor := Extmaps.next_nvme_iterate k uses (maps.seek transfer)
    rcases uses with nvme | both
    · simp only [nvmeTransfer, translate, nvme] at cursor ⊢
      rw [cursor, Extmaps.seek, nvme]
    · simp only [nvmeTransfer, translate, both] at cursor ⊢
      rw [cursor, Extmaps.seek, both]
  simp only [issuePartialTransfers_eq nonempty, pushed]
  exact List.map_eq_flatMap.symm

/-- Element `k` is translated with the block `k` moves behind the sought one. -/
theorem issued_mapped (nonempty : 0 < transfer.size) (round : k ≤ transfer.blockSpan)
    (which : transfer.map = .dram ∨ transfer.map = .nvme) :
    (issuePartialTransfers T transfer maps).mapped transfer.map k =
      some (blockAddress
        (mtlExtmapNext^[k]
          (mtlExtmapSeek (maps.mapped transfer.map) (transfer.addr / storageBlockSize)).1)
        (currentAddress transfer (transfer.roundStart k))) := by
  rcases which with dram | nvme
  · have cursor := Extmaps.next_dram_iterate k (Or.inl dram) (maps.seek transfer)
    have sought : (maps.seek transfer).dram =
        (mtlExtmapSeek maps.dram (transfer.addr / storageBlockSize)).1 := by
      rw [Extmaps.seek, dram]
    simp only [Issued.mapped, Extmaps.mapped, dram, issued_element nonempty round, Option.map_some,
      partialTransfer, translate] at cursor ⊢
    rw [cursor, sought]
  · simp only [Issued.mapped, Extmaps.mapped, nvme, issued_nvmeTransfers nonempty (Or.inl nvme),
      List.getElem?_map, List.getElem?_range (Nat.lt_succ_of_le round), Option.map_some]

/-- The address of the block under the cursor tells the block. -/
theorem blockAddress_eq_iff {map : Extmap} {pblock bytes : Nat} :
    blockAddress map (currentAddress transfer bytes) =
        u64 (pblock * storageBlockSize + (transfer.addr + bytes) % storageBlockSize) ↔
      mtlExtmapPblock map % 2 ^ 46 = pblock % 2 ^ 46 := by
  unfold blockAddress
  rw [currentAddress_mod, storageBlockSize_eq]
  unfold u64
  omega

end Elements

/-! ## Tiling -/

/-- The elements cut the bytes of the request at the block borders: their sizes are positive and add
up to the size of the request, element `k` begins at the place in its block at which the byte behind
the earlier elements lies, ends in the same block, and is the last one if it is marked so. -/
structure Issued.Tiles (issued : Issued) (transfer : Address) : Prop where
  positive : ∀ {k : Nat} {element : TransferElement}, issued.partialTransfers[k]? = some element →
    0 < element.data.size
  sum : (issued.partialTransfers.map fun element => element.data.size).sum = transfer.size
  place : ∀ {k : Nat} {element : TransferElement}, issued.partialTransfers[k]? = some element →
    element.data.address % storageBlockSize =
      (transfer.addr + issued.bytesBefore k) % storageBlockSize
  inBlock : ∀ {k : Nat} {element : TransferElement}, issued.partialTransfers[k]? = some element →
    element.data.address % storageBlockSize + element.data.size ≤ storageBlockSize
  aligned : ∀ {k : Nat} {element : TransferElement}, 0 < k →
    issued.partialTransfers[k]? = some element → element.data.address % storageBlockSize = 0
  last : ∀ {k : Nat} {element : TransferElement}, issued.partialTransfers[k]? = some element →
    (element.last = true ↔ k + 1 = issued.partialTransfers.length)
  type : ∀ {k : Nat} {element : TransferElement}, issued.partialTransfers[k]? = some element →
    element.data.type = transfer.type

section Tiling

variable {T : TransferType} {transfer : Address} {maps : Extmaps} {k : Nat}

theorem blockAddress_mod (map : Extmap) (address : Nat) :
    blockAddress map address % storageBlockSize = address % storageBlockSize := by
  unfold blockAddress u64
  rw [storageBlockSize_eq]
  omega

/-- Whatever map translates it, an address keeps its place in the block. -/
theorem translate_mod (map : MapType) (address : Nat) :
    (translate T map maps address).1 % storageBlockSize = address % storageBlockSize := by
  cases map with
  | none => rfl
  | dram => exact blockAddress_mod _ _
  | dramAndNvme => exact blockAddress_mod _ _
  | nvme =>
    unfold translate u64
    cases T with
    | read =>
      simp only [nvmeDRAMReadOffset, storageBlockSize_eq]
      omega
    | write =>
      simp only [nvmeDRAMWriteOffset, storageBlockSize_eq]
      omega

theorem roundStart_aligned (nonempty : 0 < transfer.size) (round : k ≤ transfer.blockSpan)
    (later : 0 < k) : (transfer.addr + transfer.roundStart k) % storageBlockSize = 0 := by
  have begins := roundStart_lt nonempty round
  unfold Address.roundStart at begins ⊢
  rw [if_neg (Nat.pos_iff_ne_zero.mp later)] at begins ⊢
  rw [storageBlockSize_eq] at begins ⊢
  omega

/-- Only the round that ends with the last block ends with the request. -/
theorem roundStart_last (nonempty : 0 < transfer.size) (round : k ≤ transfer.blockSpan) :
    bytesThisRound transfer (transfer.roundStart k) = transfer.size - transfer.roundStart k ↔
      k = transfer.blockSpan := by
  have begins := roundStart_lt nonempty round
  have step := roundStart_succ nonempty round
  constructor
  · intro whole
    by_contra more
    have next := @roundStart_lt transfer (k + 1) nonempty (by omega)
    omega
  · intro final
    have done := @roundStart_end transfer (k + 1) nonempty (by omega)
    omega

/-- An element that was issued is the one of its round. -/
theorem issued_round (nonempty : 0 < transfer.size) {element : TransferElement}
    (issued : (issuePartialTransfers T transfer maps).partialTransfers[k]? = some element) :
    k ≤ transfer.blockSpan ∧ ∃ maps', element =
      partialTransfer T transfer maps' (transfer.roundStart k) := by
  have below := (List.getElem?_eq_some_iff.mp issued).1
  rw [issued_length nonempty] at below
  have round : k ≤ transfer.blockSpan := by omega
  rw [issued_element nonempty round] at issued
  exact ⟨round, _, (Option.some.inj issued).symm⟩

theorem issued_tiles (nonempty : 0 < transfer.size) :
    (issuePartialTransfers T transfer maps).Tiles transfer := by
  have place : ∀ {k element},
      (issuePartialTransfers T transfer maps).partialTransfers[k]? = some element →
      element.data.address % storageBlockSize =
        (transfer.addr + transfer.roundStart k) % storageBlockSize := by
    intro k element issued
    rcases issued_round nonempty issued with ⟨round, maps', same⟩
    rw [same, partialTransfer, translate_mod, currentAddress_mod]
  constructor
  case positive =>
    intro k element issued
    rcases issued_round nonempty issued with ⟨round, maps', same⟩
    rw [same]
    exact bytesThisRound_pos (roundStart_lt nonempty round)
  case sum =>
    have all := @issued_bytesBefore T transfer maps (transfer.blockSpan + 1) nonempty (le_refl _)
    rw [Issued.bytesBefore, List.take_of_length_le (le_of_eq (issued_length nonempty)),
      roundStart_end nonempty (Nat.lt_succ_self _)] at all
    exact all
  case place =>
    intro k element issued
    rcases issued_round nonempty issued with ⟨round, -⟩
    rw [place issued, issued_bytesBefore nonempty (by omega)]
  case inBlock =>
    intro k element issued
    rcases issued_round nonempty issued with ⟨round, maps', same⟩
    rw [place issued, same, partialTransfer, bytesThisRound_eq, storageBlockSize_eq]
    dsimp only
    omega
  case aligned =>
    intro k element later issued
    rcases issued_round nonempty issued with ⟨round, -⟩
    rw [place issued, roundStart_aligned nonempty round later]
  case last =>
    intro k element issued
    rcases issued_round nonempty issued with ⟨round, maps', same⟩
    rw [same, partialTransfer, decide_eq_true_iff, roundStart_last nonempty round,
      issued_length nonempty]
    omega
  case type =>
    intro k element issued
    rcases issued_round nonempty issued with ⟨round, maps', same⟩
    rw [same, partialTransfer]

/-- Each of the two NVMe maps pushes one entry per element. -/
theorem issued_nvmeTransfers_length (nonempty : 0 < transfer.size)
    (uses : transfer.map = .nvme ∨ transfer.map = .dramAndNvme) :
    (issuePartialTransfers T transfer maps).nvmeTransfers.length =
      (issuePartialTransfers T transfer maps).partialTransfers.length := by
  rw [issued_nvmeTransfers nonempty uses, issued_length nonempty, List.length_map,
    List.length_range]

/-- Without a map the addresses are the byte addresses. -/
theorem issued_address (nonempty : 0 < transfer.size) (unmapped : transfer.map = .none)
    {element : TransferElement}
    (issued : (issuePartialTransfers T transfer maps).partialTransfers[k]? = some element) :
    element.data.address =
      (transfer.addr + (issuePartialTransfers T transfer maps).bytesBefore k) % 2 ^ 64 := by
  rcases issued_round nonempty issued with ⟨round, maps', same⟩
  rw [same, issued_bytesBefore nonempty (by omega), partialTransfer, unmapped]
  rfl

/-- The loop ends with the request: no more rounds are left when as many as it has bytes are
allowed. -/
theorem issueLoop_enough (nonempty : 0 < transfer.size) {rounds : Nat}
    (enough : transfer.size ≤ rounds) :
    issueLoop T transfer rounds 0 (maps.seek transfer) = issuePartialTransfers T transfer maps := by
  have start : transfer.roundStart 0 = 0 := rfl
  have more := @issueLoop_eq T transfer 0 nonempty rounds (maps.seek transfer) (by omega)
  have same := @issueLoop_eq T transfer 0 nonempty transfer.size (maps.seek transfer) (by omega)
  rw [start] at more same
  rw [more, issuePartialTransfers, same]

/-- For every request the loop terminates, and its elements tile the request; with an NVMe map one
entry goes to `nvme_transfers` per element, and without a map the addresses are the byte
addresses. -/
theorem partialTransfers_tile (T : TransferType) (transfer : Address) (maps : Extmaps)
    (nonempty : 0 < transfer.size) :
    (∀ rounds, transfer.size ≤ rounds → issueLoop T transfer rounds 0 (maps.seek transfer) =
        issuePartialTransfers T transfer maps) ∧
      (issuePartialTransfers T transfer maps).Tiles transfer ∧
      (transfer.map = .nvme ∨ transfer.map = .dramAndNvme →
        (issuePartialTransfers T transfer maps).nvmeTransfers.length =
          (issuePartialTransfers T transfer maps).partialTransfers.length) ∧
      (transfer.map = .none → ∀ k element,
        (issuePartialTransfers T transfer maps).partialTransfers[k]? = some element →
        element.data.address =
          (transfer.addr + (issuePartialTransfers T transfer maps).bytesBefore k) % 2 ^ 64) := by
  refine ⟨?_, issued_tiles nonempty, issued_nvmeTransfers_length nonempty, ?_⟩
  · intro rounds enough
    exact issueLoop_enough nonempty enough
  · intro unmapped k element issued
    exact issued_address nonempty unmapped issued

/-- Two blocks at the end of the address space. -/
def lastTwoBlocks : Address := ⟨2 ^ 64 - 300000, 300000, .host, .none⟩

/-- Maps without extents. -/
def noExtents : Extmaps := ⟨mtlExtmapLoad (mapExtents []), mtlExtmapLoad (mapExtents [])⟩

theorem partialTransfers_tile_lastTwoBlocks :
    0 < lastTwoBlocks.size ∧
      (issuePartialTransfers .read lastTwoBlocks noExtents).Tiles lastTwoBlocks :=
  ⟨by decide, (partialTransfers_tile .read lastTwoBlocks noExtents (by decide)).2.1⟩

end Tiling

end MetalFs.Fpga
