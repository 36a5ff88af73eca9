import MetalFs.Fpga.PartialTransfers

/-!
# Transfers against the layout of the file

The blocks that a transfer touches are the blocks its extent list assigns to the
bytes exactly when the byte range stays in the extent of its first block, but for
one physically adjacent block behind it.
-/

namespace MetalFs.Fpga

open Segments

/-- `mtl_extmap_next` reaches the blocks that `mtl_extmap_seek` finds. -/
def FollowsSeeks (map : Extmap) (lblock n : Nat) : Prop :=
  ∀ k ≤ n, mtlExtmapPblock (mtlExtmapNext^[k] (mtlExtmapSeek map lblock).1) =
    mtlExtmapPblock (mtlExtmapSeek map (lblock + k)).1

/-- Every element carries the address of the block that `extents` assigns to its
first byte. -/
def Issued.FollowsLayout (issued : Issued) (transfer : Address) (extents : List Segment) : Prop :=
  ∀ k < issued.partialTransfers.length, ∃ base,
    locate extents ((transfer.addr + issued.bytesBefore k) / storageBlockSize) = some base ∧
      issued.mapped transfer.map k = some (u64 (base * storageBlockSize +
        (transfer.addr + issued.bytesBefore k) % storageBlockSize))

section Seeks

variable {extents : List Segment} {map : Extmap} {lblock n : Nat}

theorem followsSeeks_of_stays (holds : map.Holds extents)
    (short : extents.length ≤ maxExtentsPerFile) (bound : total extents < 2 ^ 64)
    (below : lblock + n < total extents) (stays : StaysInExtent extents lblock n) :
    FollowsSeeks map lblock n := by
  intro k reach
  rw [← List.append_nil extents] at stays
  obtain ⟨pblock, located, here⟩ :=
    walk_of_stays holds short bound [] (by omega) stays reach
  rw [List.append_nil] at located
  rw [here, mtlExtmapSeek_locate holds short bound located]

theorem stays_of_followsSeeks (holds : map.Holds extents)
    (short : extents.length ≤ maxExtentsPerFile) (bound : total extents < 2 ^ 64)
    (positive : ∀ s ∈ extents, 0 < s.count) (disjoint : extents.Pairwise Segment.Disjoint)
    (addressable : Addressable extents) (below : lblock + n < total extents)
    (follows : FollowsSeeks map lblock n) : StaysInExtent extents lblock n := by
  apply stays_of_walk holds short bound positive disjoint addressable below
  intro k reach pblock located
  have device := addressable.locate_lt located
  rw [follows k reach, mtlExtmapSeek_locate holds short bound located, u64_of_lt (by omega)]
  exact Nat.mod_eq_of_lt device

end Seeks

section Transfers

variable {T : TransferType} {transfer : Address} {maps : Extmaps} {extents : List Segment}

theorem blockSpan_lt (nonempty : 0 < transfer.size)
    (inside : transfer.addr + transfer.size ≤ total extents * storageBlockSize) :
    transfer.addr / storageBlockSize + transfer.blockSpan < total extents := by
  unfold Address.blockSpan
  rw [storageBlockSize_eq] at inside ⊢
  omega

theorem followsLayout_of_stays (which : transfer.map = .dram ∨ transfer.map = .nvme)
    (holds : (maps.mapped transfer.map).Holds extents)
    (short : extents.length ≤ maxExtentsPerFile) (bound : total extents < 2 ^ 64)
    (nonempty : 0 < transfer.size)
    (inside : transfer.addr + transfer.size ≤ total extents * storageBlockSize)
    (stays : StaysInExtent extents (transfer.addr / storageBlockSize) transfer.blockSpan) :
    (issuePartialTransfers T transfer maps).FollowsLayout transfer extents := by
  intro k round
  rw [issued_length nonempty] at round
  have below := blockSpan_lt nonempty inside
  rw [← List.append_nil extents] at stays
  obtain ⟨pblock, located, here⟩ :=
    walk_of_stays holds short bound [] (by omega) stays (show k ≤ transfer.blockSpan by omega)
  rw [List.append_nil] at located
  rw [issued_bytesBefore nonempty (by omega), roundStart_block nonempty (by omega),
    issued_mapped nonempty (by omega) which]
  refine ⟨pblock, located, congrArg some (blockAddress_eq_iff.mpr ?_)⟩
  rw [here]
  unfold u64
  omega

theorem stays_of_followsLayout (which : transfer.map = .dram ∨ transfer.map = .nvme)
    (holds : (maps.mapped transfer.map).Holds extents)
    (short : extents.length ≤ maxExtentsPerFile) (bound : total extents < 2 ^ 64)
    (positive : ∀ s ∈ extents, 0 < s.count) (disjoint : extents.Pairwise Segment.Disjoint)
    (addressable : Addressable extents) (nonempty : 0 < transfer.size)
    (inside : transfer.addr + transfer.size ≤ total extents * storageBlockSize)
    (follows : (issuePartialTransfers T transfer maps).FollowsLayout transfer extents) :
    StaysInExtent extents (transfer.addr / storageBlockSize) transfer.blockSpan := by
  apply stays_of_walk holds short bound positive disjoint addressable
    (blockSpan_lt nonempty inside)
  intro k round pblock located
  obtain ⟨base, assigned, carried⟩ := follows k (by rw [issued_length nonempty]; omega)
  rw [issued_bytesBefore nonempty (by omega), roundStart_block nonempty round, located] at assigned
  cases assigned
  rw [issued_bytesBefore nonempty (by omega), issued_mapped nonempty round which] at carried
  rw [blockAddress_eq_iff.mp (Option.some.inj carried)]
  exact Nat.mod_eq_of_lt (addressable.locate_lt located)

end Transfers

/-- The walk over the extents of a file, by `mtl_extmap_next` and by the elements of
a transfer, gives the blocks of the layout if it stays in the extent it starts in
or ends on the block that physically continues it.  On the disjoint extents of a
device with 64-bit addresses it does so only then. -/
theorem extents_walked_iff_stays (extents : List Segment)
    (short : extents.length ≤ maxExtentsPerFile) (positive : ∀ s ∈ extents, 0 < s.count)
    (bound : total extents < 2 ^ 64) :
    (∀ map lblock n, map.Holds extents → lblock + n < total extents →
      (StaysInExtent extents lblock n → FollowsSeeks map lblock n) ∧
      (extents.Pairwise Segment.Disjoint → Addressable extents →
        FollowsSeeks map lblock n → StaysInExtent extents lblock n)) ∧
    (∀ T transfer maps, transfer.map = .dram ∨ transfer.map = .nvme →
      (maps.mapped transfer.map).Holds extents → 0 < transfer.size →
      transfer.addr + transfer.size ≤ total extents * storageBlockSize →
      (StaysInExtent extents (transfer.addr / storageBlockSize) transfer.blockSpan →
        (issuePartialTransfers T transfer maps).FollowsLayout transfer extents) ∧
      (extents.Pairwise Segment.Disjoint → Addressable extents →
        (issuePartialTransfers T transfer maps).FollowsLayout transfer extents →
          StaysInExtent extents (transfer.addr / storageBlockSize) transfer.blockSpan)) := by
  constructor
  · intro map lblock n holds below
    constructor
    · exact followsSeeks_of_stays holds short bound below
    · intro disjoint addressable
      exact stays_of_followsSeeks holds short bound positive disjoint addressable below
  · intro T transfer maps which holds nonempty inside
    constructor
    · exact followsLayout_of_stays which holds short bound nonempty inside
    · intro disjoint addressable
      exact stays_of_followsLayout which holds short bound positive disjoint addressable nonempty
        inside

/-- Both maps loaded with the extents of one file. -/
def loaded (extents : List Segment) : Extmaps :=
  ⟨mtlExtmapLoad (mapExtents extents), mtlExtmapLoad (mapExtents extents)⟩

/-- The second extent continues the first one, the third does not. -/
def adjacent : List Segment := [⟨7, 2⟩, ⟨9, 1⟩, ⟨3, 4⟩]

theorem extents_walked_iff_stays_adjacent :
    FollowsSeeks (loaded adjacent).dram 0 2 ∧
    (issuePartialTransfers .read ⟨100, 2 * 2 ^ 18, .cardDRAM, .dram⟩
      (loaded adjacent)).FollowsLayout ⟨100, 2 * 2 ^ 18, .cardDRAM, .dram⟩ adjacent := by
  have walked := extents_walked_iff_stays adjacent (by decide) (by decide) (by decide)
  constructor
  · exact (walked.1 _ 0 2 (holds_load adjacent) (by decide)).1 (by decide)
  · exact (walked.2 .read ⟨100, 2 * 2 ^ 18, .cardDRAM, .dram⟩ (loaded adjacent) (Or.inl rfl)
      (holds_load adjacent) (by decide) (by decide)).1 (by decide)

/-- Two extents of a file, the second one elsewhere on the device. -/
def scattered : List Segment := [⟨0, 1⟩, ⟨5, 1⟩]

/-- The second block of a transfer is not the one of the second extent. -/
theorem scattered_not_followed :
    scattered.length ≤ maxExtentsPerFile ∧ (∀ s ∈ scattered, 0 < s.count) ∧
    scattered.Pairwise Segment.Disjoint ∧
    ¬ (issuePartialTransfers .read ⟨0, 2 * 2 ^ 18, .cardDRAM, .dram⟩
      (loaded scattered)).FollowsLayout ⟨0, 2 * 2 ^ 18, .cardDRAM, .dram⟩ scattered ∧
    ¬ FollowsSeeks (loaded scattered).dram 0 1 := by
  refine ⟨by decide, by decide, ?_, ?_, ?_⟩
  · simp only [scattered, List.pairwise_cons, List.mem_singleton, forall_eq, List.Pairwise.nil,
      List.not_mem_nil, false_imp_iff, implies_true, and_true]
    intro x inFirst inSecond
    simp only [Segment.Contains] at inFirst inSecond
    omega
  · intro follows
    obtain ⟨base, assigned, carried⟩ := follows 1 (by decide +kernel)
    have expected : locate scattered ((0 + (issuePartialTransfers .read
        ⟨0, 2 * 2 ^ 18, .cardDRAM, .dram⟩ (loaded scattered)).bytesBefore 1) /
          storageBlockSize) = some 5 := by decide +kernel
    cases expected.symm.trans assigned
    exact absurd carried (by decide +kernel)
  · intro follows
    exact absurd (follows 1 (by decide)) (by decide +kernel)

end MetalFs.Fpga
