import MetalFs.Filesystem.FileRuns

/-!
# Writing to the device and reading back

The two copy loops of `storage_in_memory.c` use one map from the positions of a file to the device,
so that what is written is read back and nothing else is touched.  Both begin with an assertion that
the range ends in front of the end of the device: a range that ends exactly there is refused.
-/

namespace MetalFs

open Segments

section RoundTrip

variable {db : Db} {inodeId offset : Nat} {inode : Inode} {l : List FileExtent}

/-- For a range inside the extents of a file and in front of the end of the device: a write returns,
what it wrote is read back, the device bytes that the extents do not map to the range are as before,
and so is every read of another range of the file or of a file with other extents. -/
theorem mtlStorageWrite_read (storage : Storage) {buffer : List Byte}
    (loaded : mtlLoadFile db inodeId = some (inode, l)) (short : l.length ≤ mtlMaxExtents)
    (disjoint : (blockSegments l).Pairwise Segment.Disjoint) (inside : ∀ e ∈ l, e.Inside)
    (fits : offset + buffer.length ≤ blockCount l * blockSize)
    (device : offset + buffer.length < numBlocks * blockSize) :
    ∃ storage', mtlStorageWrite db storage inodeId offset buffer = some storage' ∧
      mtlStorageRead db storage' inodeId offset buffer.length = some buffer ∧
      (∀ x, (∀ i < buffer.length, locate (byteSegments l) (offset + i) ≠ some x) →
        storage' x = storage x) ∧
      (∀ offset' length, offset' + length ≤ offset ∨ offset + buffer.length ≤ offset' →
        mtlStorageRead db storage' inodeId offset' length =
          mtlStorageRead db storage inodeId offset' length) ∧
      ∀ other inode' l', mtlLoadFile db other = some (inode', l') → (∀ e ∈ l', e.Inside) →
        (∀ e ∈ l, ∀ e' ∈ l', e.segment.Disjoint e'.segment) → ∀ offset' length,
          mtlStorageRead db storage' other offset' length =
            mtlStorageRead db storage other offset' length := by
  have pairwise := byteSegments_pairwise disjoint
  have capacity : offset + buffer.length ≤ total (byteSegments l) := by
    rw [total_byteSegments]
    exact fits
  obtain ⟨storage', written, content, outside⟩ :=
    mtlStorageWrite_spec storage loaded short inside pairwise device capacity
  refine ⟨storage', written, ?_, outside, ?_, ?_⟩
  · obtain ⟨bytes, read, length, stored⟩ :=
      mtlStorageRead_spec storage' loaded short inside device capacity
    rw [read]
    congr 1
    refine List.ext_getElem length ?_
    intro i small small'
    obtain ⟨x, located⟩ := @exists_locate (byteSegments l) (offset + i) (by omega)
    have here := stored i x (by omega) located
    rw [List.getElem?_eq_getElem small, content i x small' located] at here
    exact Option.some.inj here
  · intro offset' length apart
    refine mtlStorageRead_congr_range loaded loaded inside ?_
    intro i small x located
    refine outside x ?_
    intro j small' located'
    have same := locate_inj pairwise located located'
    omega
  · intro other inode' l' loaded' inside' apart offset' length
    refine mtlStorageRead_congr loaded' loaded' inside' ?_ offset' length
    intro e' member' x contains'
    refine outside x ?_
    intro i small located
    obtain ⟨segment, inList, contains⟩ := locate_mem located
    obtain ⟨e, member, rfl⟩ := List.mem_map.mp inList
    exact ((apart e member e' member').scale blockSize) x contains contains'

/-- A range that is inside the extents of a file is written and read exactly if it ends in front of
the end of the device. -/
theorem mtlStorage_returns_iff (storage : Storage) (buffer : List Byte)
    (loaded : mtlLoadFile db inodeId = some (inode, l)) (short : l.length ≤ mtlMaxExtents)
    (disjoint : (blockSegments l).Pairwise Segment.Disjoint) (inside : ∀ e ∈ l, e.Inside)
    (fits : offset + buffer.length ≤ blockCount l * blockSize) :
    ((∃ storage', mtlStorageWrite db storage inodeId offset buffer = some storage') ↔
        offset + buffer.length < numBlocks * blockSize) ∧
      ((∃ bytes, mtlStorageRead db storage inodeId offset buffer.length = some bytes) ↔
        offset + buffer.length < numBlocks * blockSize) := by
  have capacity : offset + buffer.length ≤ total (byteSegments l) := by
    rw [total_byteSegments]
    exact fits
  have word : u64 (offset + buffer.length) = offset + buffer.length :=
    u64_of_lt (Nat.lt_of_le_of_lt capacity (total_byteSegments_lt inside short))
  constructor
  · constructor
    · intro returned
      rcases returned with ⟨storage', returned⟩
      rw [mtlStorageWrite, word] at returned
      split at returned
      · assumption
      · cases returned
    · intro device
      rcases mtlStorageWrite_spec storage loaded short inside (byteSegments_pairwise disjoint) device
        capacity with ⟨storage', written, -⟩
      exact ⟨storage', written⟩
  · constructor
    · intro returned
      rcases returned with ⟨bytes, returned⟩
      rw [mtlStorageRead, word] at returned
      split at returned
      · assumption
      · cases returned
    · intro device
      rcases mtlStorageRead_spec storage loaded short inside device capacity with ⟨bytes, read, -⟩
      exact ⟨bytes, read⟩

end RoundTrip

instance FileExtent.decidableInside (e : FileExtent) : Decidable e.Inside :=
  inferInstanceAs (Decidable (e.offset + e.length ≤ numBlocks))

/-- A store with one file of the given extents. -/
def storeOf (l : List FileExtent) : Db :=
  mtlPutInode emptyDb 1 ⟨.file, blockCount l * blockSize, 0, 0, 0, 0, 0, sIfreg⟩ (extentBytes l)

/-- The last byte of block 3 and the first one of block 0, which follow each other in the file. -/
theorem mtlStorageWrite_read_twoExtents :
    ∃ storage', mtlStorageWrite (storeOf [⟨3, 1⟩, ⟨0, 1⟩]) (fun _ => byte 0) 1 4095
        [byte 1, byte 2] = some storage' ∧
      mtlStorageRead (storeOf [⟨3, 1⟩, ⟨0, 1⟩]) storage' 1 4095 2 = some [byte 1, byte 2] := by
  have loaded : mtlLoadFile (storeOf [⟨3, 1⟩, ⟨0, 1⟩]) 1 =
      some (⟨.file, 8192, 0, 0, 0, 0, 0, sIfreg⟩, [⟨3, 1⟩, ⟨0, 1⟩]) := by decide +kernel
  have disjoint : (blockSegments [⟨3, 1⟩, ⟨0, 1⟩]).Pairwise Segment.Disjoint := by
    simp only [blockSegments, List.map_cons, List.map_nil, FileExtent.segment,
      List.pairwise_pair]
    intro x first second
    simp only [Segment.Contains] at first second
    omega
  rcases mtlStorageWrite_read (fun _ => byte 0) loaded (by decide) disjoint
    (by decide) (show 4095 + [byte 1, byte 2].length ≤ _ by decide) (by decide) with
    ⟨storage', written, read, -⟩
  exact ⟨storage', written, read⟩

theorem mtlStorage_returns_lastBlock :
    ((∃ storage', mtlStorageWrite (storeOf [⟨32767, 1⟩]) (fun _ => byte 0) 1 4095 [byte 1] =
        some storage') ↔ 4095 + 1 < numBlocks * blockSize) ∧
      ((∃ bytes, mtlStorageRead (storeOf [⟨32767, 1⟩]) (fun _ => byte 0) 1 4095 1 = some bytes) ↔
        4095 + 1 < numBlocks * blockSize) := by
  have loaded : mtlLoadFile (storeOf [⟨32767, 1⟩]) 1 =
      some (⟨.file, 4096, 0, 0, 0, 0, 0, sIfreg⟩, [⟨32767, 1⟩]) := by decide +kernel
  exact mtlStorage_returns_iff (fun _ => byte 0) [byte 1] loaded (by decide)
    (List.pairwise_singleton _ _) (by decide) (by decide)

/-- The last byte of a file that fills the device can neither be written nor read. -/
theorem mtlStorage_refuses_lastByte :
    mtlLoadFile (storeOf [⟨0, numBlocks⟩]) 1 =
        some (⟨.file, numBlocks * blockSize, 0, 0, 0, 0, 0, sIfreg⟩, [⟨0, numBlocks⟩]) ∧
      numBlocks * blockSize - 1 + 1 ≤ blockCount [⟨0, numBlocks⟩] * blockSize ∧
      mtlStorageWrite (storeOf [⟨0, numBlocks⟩]) (fun _ => byte 0) 1 (numBlocks * blockSize - 1)
        [byte 1] = none ∧
      mtlStorageRead (storeOf [⟨0, numBlocks⟩]) (fun _ => byte 0) 1 (numBlocks * blockSize - 1) 1 =
        none := by
  refine ⟨by decide +kernel, by decide, ?_, ?_⟩
  · rw [mtlStorageWrite, if_neg (by decide)]
  · rw [mtlStorageRead, if_neg (by decide)]

end MetalFs
