import MetalFs.Fpga.PartialTransfers

/-!
# The DRAM pagefile

With the map `DRAMAndNVMe` the data of a transfer is staged in the DRAM pagefile,
byte `a` of the file in block `a % PagefileSize / StorageBlockSize` of the pagefile.
The first block is sought modulo the size of the pagefile; the following ones come
from `mtl_extmap_next`, which does not wrap around.
-/

namespace MetalFs.Fpga

open Segments

/-- The extents of a pagefile. -/
structure Pagefile where
  extents : List Segment
  positive : ∀ s ∈ extents, 0 < s.count
  disjoint : extents.Pairwise Segment.Disjoint
  addressable : Addressable extents
  blocks : total extents = pagefileSize / storageBlockSize

namespace Pagefile

variable (pagefile : Pagefile)

theorem total_eq : total pagefile.extents = 128 := pagefile.blocks

theorem length_le : pagefile.extents.length ≤ 128 := by
  have := length_le_total pagefile.positive
  rw [pagefile.total_eq] at this
  exact this

theorem short : pagefile.extents.length ≤ maxExtentsPerFile :=
  Nat.le_trans pagefile.length_le (by decide)

theorem bound : total pagefile.extents < 2 ^ 64 := by
  rw [pagefile.total_eq]
  decide

/-- The walk over blocks `lblock` to `lblock + n` of the pagefile, counted modulo its
size, stays in an extent or ends on the block that physically continues it.  The
padding of the map adds one case: behind the last extent the cursor is on block
zero, which is right if it is the second block of the pagefile. -/
def Stays (lblock n : Nat) : Prop :=
  StaysInExtent (pagefile.extents ++ pagefile.extents) lblock n ∨
    lblock + n = total pagefile.extents + 1 ∧
      StaysInExtent (pagefile.extents ++ pagefile.extents) lblock (n - 1) ∧
        locate pagefile.extents 1 = some 0

instance (lblock n : Nat) : Decidable (pagefile.Stays lblock n) :=
  inferInstanceAs (Decidable (_ ∨ _))

end Pagefile

/-- Every element lies in the pagefile block of its first byte. -/
def Issued.StaysInPagefile (issued : Issued) (transfer : Address) (pagefile : Pagefile) : Prop :=
  ∀ k element, issued.partialTransfers[k]? = some element → ∃ base,
    locate pagefile.extents (currentAddress transfer (issued.bytesBefore k) % pagefileSize /
      storageBlockSize) = some base ∧
    base * storageBlockSize ≤ element.data.address ∧
    element.data.address + element.data.size ≤ (base + 1) * storageBlockSize

/-! ## Walks through the pagefile -/

section Walks

variable {pagefile : Pagefile} {map : Extmap} {lblock n : Nat}

/-- The walk is on the right pagefile block after every move. -/
def FollowsPagefile (pagefile : Pagefile) (map : Extmap) (lblock n : Nat) : Prop :=
  ∀ k ≤ n, ∃ pblock, locate pagefile.extents ((lblock + k) % 128) = some pblock ∧
    mtlExtmapPblock (mtlExtmapNext^[k] (mtlExtmapSeek map lblock).1) % 2 ^ 46 = pblock

/-- The cursor stands on zero behind the last extent of the map. -/
theorem begins_padding (holds : map.Holds pagefile.extents) {i : Nat}
    (padding : pagefile.extents.length ≤ i) : map.extentsBegin i = 0 := by
  rw [holds.extentsBegin]
  simp only [mtlExtmapLoad, mapExtents, List.getElem?_eq_none padding]

theorem counts_padding (holds : map.Holds pagefile.extents) {i : Nat}
    (padding : pagefile.extents.length ≤ i) : map.extentsCount i = 0 := by
  rw [holds.extentsCount]
  simp only [mtlExtmapLoad, mapExtents, List.getElem?_eq_none padding]

theorem follows_of_staysInExtent (holds : map.Holds pagefile.extents) (below : lblock < 128)
    (stays : StaysInExtent (pagefile.extents ++ pagefile.extents) lblock n) :
    FollowsPagefile pagefile map lblock n := by
  intro k reach
  obtain ⟨pblock, located, here⟩ := walk_of_stays holds pagefile.short pagefile.bound
    pagefile.extents (by rw [pagefile.total_eq]; exact below) stays reach
  have twice := lt_total located
  rw [total_append] at twice
  rw [locate_twice (by omega), pagefile.total_eq] at located
  have device := pagefile.addressable.locate_lt located
  refine ⟨pblock, located, ?_⟩
  rw [here, u64_of_lt (by omega)]
  exact Nat.mod_eq_of_lt device

/-- Behind the last extent the walk goes to the padding of the map. -/
theorem walk_past_end (holds : map.Holds pagefile.extents) {before : List Segment} {s : Segment}
    (whole : pagefile.extents = before ++ [s]) {offset : Nat} (inside : offset < s.count) :
    mtlExtmapNext^[s.count - offset + 1] (mtlExtmapSeek map (total before + offset)).1 =
      map.moveTo (before.length + 1) 0 := by
  have short := pagefile.length_le
  have padding : pagefile.extents.length = before.length + 1 := by rw [whole]; simp
  have index : (before.length + 1) % maxExtentsPerFile = before.length + 1 :=
    Nat.mod_eq_of_lt (by unfold maxExtentsPerFile; omega)
  have zero := begins_padding holds (Nat.le_of_eq padding)
  have shortList := pagefile.short
  have bound := pagefile.bound
  rw [whole] at holds shortList bound
  rw [walk_leave holds shortList bound inside, index, zero]

/-- And from there to the padding behind it. -/
theorem walk_past_padding (holds : map.Holds pagefile.extents) {i : Nat}
    (padding : pagefile.extents.length ≤ i) (small : i + 1 < maxExtentsPerFile) :
    mtlExtmapNext (map.moveTo i 0) = map.moveTo (i + 1) 0 := by
  have leave := mtlExtmapNext_leave map i
    (by rw [begins_padding holds padding]; decide) (by rw [counts_padding holds padding]; decide)
  rw [begins_padding holds padding, counts_padding holds padding,
    Nat.mod_eq_of_lt small, begins_padding holds (by omega)] at leave
  exact leave

theorem follows_of_stays (holds : map.Holds pagefile.extents) (below : lblock < 128)
    (stays : pagefile.Stays lblock n) : FollowsPagefile pagefile map lblock n := by
  rcases stays with stays | ⟨ends, stays, second⟩
  · exact follows_of_staysInExtent holds below stays
  · have sum := pagefile.total_eq
    have follows := follows_of_staysInExtent holds below stays
    rw [sum] at ends
    obtain ⟨before, s, rest, offset, whole, rfl, inside⟩ :=
      exists_split (l := pagefile.extents) (show lblock < _ by omega)
    rw [whole, total_append, total_cons] at sum
    rw [whole, List.append_assoc, List.cons_append, staysInExtent_split inside] at stays
    have noRest : rest = [] := by
      have length := length_le_total (l := rest) fun t member =>
        pagefile.positive t (by rw [whole]; simp [member])
      exact List.eq_nil_of_length_eq_zero (by omega)
    subst noRest
    intro k reach
    rcases Nat.lt_or_ge k n with earlier | last
    · exact follows k (by omega)
    · have moves : k = s.count - offset + 1 := by omega
      have index : (total before + offset + k) % 128 = 1 := by omega
      refine ⟨0, by rw [index]; exact second, ?_⟩
      rw [moves, walk_past_end holds whole inside]
      rfl

/-- A walk that is right up to the end of the pagefile is in its last extent. -/
theorem last_of_follows (holds : map.Holds pagefile.extents) (below : lblock < 128)
    (follows : FollowsPagefile pagefile map lblock (128 - lblock)) : ∃ before s,
    pagefile.extents = before ++ [s] ∧ total before ≤ lblock ∧ total before + s.count = 128 ∧
      locate pagefile.extents 0 = some (s.start + s.count) := by
  have sum := pagefile.total_eq
  have stays : StaysInExtent pagefile.extents lblock (127 - lblock) := by
    apply stays_of_walk holds pagefile.short pagefile.bound pagefile.positive pagefile.disjoint
      pagefile.addressable (by omega)
    intro k reach pblock located
    obtain ⟨pblock', located', here⟩ := follows k (by omega)
    rw [Nat.mod_eq_of_lt (by omega), located] at located'
    cases located'
    exact here
  obtain ⟨pblock, first, here⟩ := follows (128 - lblock) (Nat.le_refl _)
  obtain ⟨before, s, rest, offset, whole, rfl, inside⟩ :=
    exists_split (l := pagefile.extents) (show lblock < _ by omega)
  have again : (total before + offset + (128 - (total before + offset))) % 128 = 0 := by omega
  rw [again] at first
  have holds' := holds
  have short := pagefile.short
  have bound := pagefile.bound
  rw [whole] at holds' short bound
  rw [whole, total_append, total_cons] at sum
  rw [whole, staysInExtent_split inside] at stays
  rcases stays with within | ⟨ends, continues⟩
  · have noRest : rest = [] := by
      have length := length_le_total (l := rest) fun t member =>
        pagefile.positive t (by rw [whole]; simp [member])
      exact List.eq_nil_of_length_eq_zero (by omega)
    subst noRest
    rw [total_nil] at sum
    refine ⟨before, s, whole, by omega, by omega, ?_⟩
    rw [walk_inside holds' short bound inside (by omega)] at here
    have device := pagefile.addressable s (by rw [whole]; simp)
    have base := pagefile.addressable.locate_lt first
    simp only [mtlExtmapPblock, Extmap.moveTo_currentPblock, u64] at here
    rw [first]
    congr 1
    omega
  · -- the walk would come to the extent of the last block a second time
    exfalso
    obtain ⟨t, rest, rfl⟩ : ∃ t rest', rest = t :: rest' := by
      cases rest with
      | nil => cases continues
      | cons t rest => exact ⟨t, rest, rfl⟩
    have tPositive := pagefile.positive t (by rw [whole]; simp)
    have tDevice := pagefile.addressable t (by rw [whole]; simp)
    have start : locate pagefile.extents (total before + s.count + 0) = some t.start := by
      rw [whole, locate_behind, locate, if_pos tPositive]
      rfl
    have index : (before.length + 1) % maxExtentsPerFile = (before ++ [s]).length := by
      simp only [List.length_append, List.length_cons, List.length_nil] at short ⊢
      exact Nat.mod_eq_of_lt (by omega)
    have holdsT : map.Holds ((before ++ [s]) ++ t :: rest) := by
      rw [List.append_assoc]
      exact holds'
    have moves : 128 - (total before + offset) = s.count - offset + 1 := by omega
    rw [moves, walk_leave holds' short bound inside, index, holdsT.begins] at here
    simp only [mtlExtmapPblock, Extmap.moveTo_currentPblock, u64] at here
    have same : pblock = t.start := by omega
    rw [same] at first
    have := locate_inj pagefile.disjoint first start
    omega

theorem stays_of_follows (holds : map.Holds pagefile.extents) (below : lblock < 128)
    (follows : FollowsPagefile pagefile map lblock n) : pagefile.Stays lblock n := by
  have sum := pagefile.total_eq
  rcases Nat.lt_or_ge (lblock + n) 128 with within | beyond
  · left
    have stays : StaysInExtent pagefile.extents lblock n := by
      apply stays_of_walk holds pagefile.short pagefile.bound pagefile.positive pagefile.disjoint
        pagefile.addressable (by omega)
      intro k reach pblock located
      obtain ⟨pblock', located', here⟩ := follows k reach
      rw [Nat.mod_eq_of_lt (by omega), located] at located'
      cases located'
      exact here
    exact stays.append (by omega) pagefile.extents
  · obtain ⟨before, s, whole, above, ends, first⟩ := last_of_follows holds below
      fun k reach => follows k (by omega)
    obtain ⟨offset, rfl⟩ := Nat.exists_eq_add_of_le above
    have inside : offset < s.count := by omega
    have twice : pagefile.extents ++ pagefile.extents = before ++ s :: pagefile.extents := by
      nth_rewrite 1 [whole]
      rw [List.append_assoc, List.singleton_append]
    have wrapped : StaysInExtent (pagefile.extents ++ pagefile.extents) (total before + offset)
        (s.count - offset) := by
      rw [twice, staysInExtent_split inside]
      exact Or.inr ⟨by omega, first⟩
    have past := walk_past_end holds whole inside
    rcases Nat.lt_or_ge n (s.count - offset + 1) with one | more
    · left
      have moves : n = s.count - offset := by omega
      rw [moves]
      exact wrapped
    · right
      have index : (total before + offset + (s.count - offset + 1)) % 128 = 1 := by omega
      obtain ⟨pblock, second, here⟩ := follows (s.count - offset + 1) more
      rw [past] at here
      rw [index] at second
      have zero : pblock = 0 := by rw [← here]; rfl
      rw [zero] at second
      -- a third block would have to be block zero too
      have last : n = s.count - offset + 1 := by
        rcases Nat.lt_or_ge (s.count - offset + 1) n with further | last
        · exfalso
          have length : pagefile.extents.length = before.length + 1 := by rw [whole]; simp
          have short := pagefile.length_le
          have index' : (total before + offset + (s.count - offset + 2)) % 128 = 2 := by omega
          obtain ⟨pblock', third, here'⟩ := follows (s.count - offset + 2) further
          rw [Function.iterate_succ_apply', past, walk_past_padding holds (by omega)
            (by unfold maxExtentsPerFile; omega)] at here'
          have zero' : pblock' = 0 := by rw [← here']; rfl
          rw [index', zero'] at third
          have := locate_inj pagefile.disjoint second third
          omega
        · omega
      refine ⟨by omega, ?_, second⟩
      rw [last, Nat.add_sub_cancel]
      exact wrapped

end Walks

/-! ## Transfers through the pagefile -/

section Transfers

variable {transfer : Address} {k : Nat}

theorem issued_staged (T : TransferType) (maps : Extmaps) (nonempty : 0 < transfer.size)
    (round : k ≤ transfer.blockSpan) (both : transfer.map = .dramAndNvme) :
    ∃ element, (issuePartialTransfers T transfer maps).partialTransfers[k]? = some element ∧
      element.data.address = blockAddress (mtlExtmapNext^[k]
        (mtlExtmapSeek maps.dram (transfer.addr % pagefileSize / storageBlockSize)).1)
        (currentAddress transfer (transfer.roundStart k)) ∧
      element.data.size = bytesThisRound transfer (transfer.roundStart k) := by
  refine ⟨_, issued_element nonempty round, ?_, rfl⟩
  have cursor := Extmaps.next_dram_iterate k (Or.inr both) (maps.seek transfer)
  have sought : (maps.seek transfer).dram =
      (mtlExtmapSeek maps.dram (transfer.addr % pagefileSize / storageBlockSize)).1 := by
    rw [Extmaps.seek, both]
  simp only [partialTransfer, translate, both] at cursor ⊢
  rw [cursor, sought]

/-- A part of a block lies in the block whose address it got. -/
theorem in_block_iff {map : Extmap} {bytes pblock : Nat} (begins : bytes < transfer.size)
    (device : pblock < 2 ^ 46) :
    (pblock * storageBlockSize ≤ blockAddress map (currentAddress transfer bytes) ∧
      blockAddress map (currentAddress transfer bytes) + bytesThisRound transfer bytes ≤
        (pblock + 1) * storageBlockSize) ↔ mtlExtmapPblock map % 2 ^ 46 = pblock := by
  unfold blockAddress
  rw [bytesThisRound_eq, currentAddress_mod, storageBlockSize_eq]
  unfold u64
  omega

theorem pagefile_index (nonempty : 0 < transfer.size) (round : k ≤ transfer.blockSpan) :
    currentAddress transfer (transfer.roundStart k) % pagefileSize / storageBlockSize =
      (transfer.addr % pagefileSize / storageBlockSize + k) % 128 := by
  have block := roundStart_block nonempty round
  unfold currentAddress u64 pagefileSize
  rw [storageBlockSize_eq] at block ⊢
  omega

end Transfers

/-- A transfer stays in the pagefile exactly when the walk over its blocks does. -/
theorem staysInPagefile_iff_stays (pagefile : Pagefile) (T : TransferType) (transfer : Address)
    (maps : Extmaps) (both : transfer.map = .dramAndNvme)
    (holds : maps.dram.Holds pagefile.extents) (nonempty : 0 < transfer.size) :
    (issuePartialTransfers T transfer maps).StaysInPagefile transfer pagefile ↔
      pagefile.Stays (transfer.addr % pagefileSize / storageBlockSize) transfer.blockSpan := by
  have below : transfer.addr % pagefileSize / storageBlockSize < 128 := by
    unfold pagefileSize
    rw [storageBlockSize_eq]
    omega
  constructor
  · intro staged
    apply stays_of_follows holds below
    intro k round
    obtain ⟨element, present, address, size⟩ := issued_staged T maps nonempty round both
    obtain ⟨base, located, inBlock⟩ := staged k element present
    rw [issued_bytesBefore nonempty (by omega), pagefile_index nonempty round] at located
    rw [address, size] at inBlock
    exact ⟨base, located, (in_block_iff (roundStart_lt nonempty round)
      (pagefile.addressable.locate_lt located)).mp inBlock⟩
  · intro stays k element present
    have round : k ≤ transfer.blockSpan := by
      have := (List.getElem?_eq_some_iff.mp present).1
      rw [issued_length nonempty] at this
      omega
    obtain ⟨element', present', address, size⟩ := issued_staged T maps nonempty round both
    cases present.symm.trans present'
    obtain ⟨base, located, here⟩ := follows_of_stays holds below stays k round
    rw [issued_bytesBefore nonempty (by omega), pagefile_index nonempty round, address, size]
    exact ⟨base, located, (in_block_iff (roundStart_lt nonempty round)
      (pagefile.addressable.locate_lt located)).mpr here⟩

/-- A pagefile in one piece. -/
def wholePagefile : Pagefile where
  extents := [⟨0, 128⟩]
  positive := by decide
  disjoint := List.pairwise_singleton _ _
  addressable := by unfold Addressable; decide
  blocks := by decide

/-- A transfer of 32 MiB from the start of the pagefile. -/
theorem staysInPagefile_iff_stays_wholePagefile :
    (issuePartialTransfers .write ⟨2 ^ 25, 2 ^ 25, .nvme, .dramAndNvme⟩
      ⟨mtlExtmapLoad (mapExtents wholePagefile.extents), mtlExtmapLoad (mapExtents [⟨9, 500⟩])⟩
      ).StaysInPagefile ⟨2 ^ 25, 2 ^ 25, .nvme, .dramAndNvme⟩ wholePagefile :=
  (staysInPagefile_iff_stays wholePagefile .write ⟨2 ^ 25, 2 ^ 25, .nvme, .dramAndNvme⟩ _ rfl
    (holds_load _) (by decide)).mpr (by decide)

/-- The driver's transfers of 64 MiB leave the pagefile in the middle. -/
theorem bufferTransfer_leaves_pagefile :
    ¬ (issuePartialTransfers .write ⟨0, 2 ^ 26, .nvme, .dramAndNvme⟩
      ⟨mtlExtmapLoad (mapExtents wholePagefile.extents), mtlExtmapLoad (mapExtents [⟨9, 500⟩])⟩
      ).StaysInPagefile ⟨0, 2 ^ 26, .nvme, .dramAndNvme⟩ wholePagefile := by
  intro staged
  have present : (issuePartialTransfers .write ⟨0, 2 ^ 26, .nvme, .dramAndNvme⟩
      ⟨mtlExtmapLoad (mapExtents wholePagefile.extents), mtlExtmapLoad (mapExtents [⟨9, 500⟩])⟩
      ).partialTransfers[128]? = some ⟨⟨2 ^ 25, 2 ^ 18, .nvme⟩, false⟩ := by decide +kernel
  obtain ⟨base, located, low, high⟩ := staged 128 _ present
  obtain ⟨s, member, contains⟩ := locate_mem located
  rw [List.mem_singleton.mp member] at contains
  have := contains.2
  rw [storageBlockSize_eq] at high
  simp only at this high
  omega

end MetalFs.Fpga
