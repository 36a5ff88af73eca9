import MetalFs.Filesystem.MetalCreate
import MetalFs.Filesystem.MetalShrink
import MetalFs.Filesystem.StorageSpec

/-!
# Runs of file operations

The file system over the in-memory backend as a state machine, and one
specification for each of its operations.

* `mtlExpandInode_cases`, `mtlTruncate_shrink`: the two ways to change the length;
* `mtlWrite_spec`: a write that has room returns and stores the buffer;
* `mtlRead_spec`: a read returns what the file has stored in the range.
-/

namespace MetalFs

open Segments

/-- An operation on the file system. -/
inductive FsOp where
  | create (filename : List Byte) (mode : Nat) (now : Int)
  | write (inodeId : Nat) (buffer : List Byte) (offset : Nat)
  | truncate (inodeId offset : Nat)
  | read (inodeId size offset : Nat)

/-- The file system after an operation. -/
def FsOp.step (fs : Fs) : FsOp → Option Fs
  | create filename mode now =>
    (mtlCreate fs.db filename mode now).map fun
      | .error _ => fs
      | .ok (_, db) => { fs with db }
  | write inodeId buffer offset => mtlWrite mtlStorageGetMetadata fs inodeId buffer offset
  | truncate inodeId offset =>
    (mtlTruncate mtlStorageGetMetadata fs.db inodeId offset).map fun db => { fs with db }
  | read inodeId size offset => (mtlRead fs inodeId size offset).map fun _ => fs

/-! ## Growing and shrinking on the device -/

theorem blockSize_pos : 0 < mtlStorageGetMetadata.blockSize := by decide

theorem device_lt : mtlStorageGetMetadata.numBlocks * mtlStorageGetMetadata.blockSize < 2 ^ 64 := by
  decide

theorem numBlocks_lt : mtlStorageGetMetadata.numBlocks < 2 ^ 64 := by decide

theorem byteSegments_eq (l : List FileExtent) :
    byteSegments l = (blockSegments l).map (Segment.scale blockSize) := by
  simp only [byteSegments, blockSegments, List.map_map]
  rfl

theorem total_byteSegments_eq (l : List FileExtent) :
    total (byteSegments l) = blockCount l * blockSize := by
  rw [byteSegments_eq, total_scale, total_blockSegments]

/-- The number of blocks a file lacks to hold `bytes` bytes. -/
def missingBlocks (l : List FileExtent) (bytes : Nat) : Nat :=
  blocksFor blockSize bytes - blockCount l

theorem byteSegments_pairwise {l : List FileExtent}
    (disjoint : (blockSegments l).Pairwise Segment.Disjoint) :
    (byteSegments l).Pairwise Segment.Disjoint := by
  rw [byteSegments_eq, List.pairwise_map]
  exact disjoint.imp fun apart => apart.scale blockSize

variable {db : Db} {id : Nat} {inode : Inode} {l : List FileExtent}

section

variable (inv : db.Inv mtlStorageGetMetadata) (file : db.FileAt id inode l)

include inv file

theorem Db.Inv.inside : ∀ e ∈ l, e.Inside := fun _ member => inv.le file member

theorem Db.Inv.byteSegments_disjoint : (byteSegments l).Pairwise Segment.Disjoint :=
  byteSegments_pairwise (inv.disjoint file)

theorem mtlExpandInode_eq (bytes : Nat) :
    mtlExpandInode mtlStorageGetMetadata db id l bytes =
      expandLoop mtlStorageGetMetadata id bytes (missingBlocks l bytes) db (blockCount l)
        (l.getLastD ⟨0, 0⟩) := by
  have fits := inv.blockCount_le file
  have bound := numBlocks_lt
  have countEq : u64 (blockCount l) = blockCount l := u64_of_lt (by omega)
  rw [mtlExpandInode, show (l.map FileExtent.length).sum = blockCount l from rfl, countEq]
  rfl

/-- `mtl_expand_inode` gives the file the missing blocks, or there are not enough. -/
theorem mtlExpandInode_cases {bytes : Nat} (small : bytes < 2 ^ 64)
    (ok : GrowOk (missingBlocks l bytes) db.allocator (l.getLastD ⟨0, 0⟩)
      (missingBlocks l bytes)) :
    (mtlExpandInode mtlStorageGetMetadata db id l bytes = none ∧
        db.allocator.freeBlocks < missingBlocks l bytes) ∨
      ∃ db' inode' l', mtlExpandInode mtlStorageGetMetadata db id l bytes = some db' ∧
        Expanded mtlStorageGetMetadata id bytes db inode l db' inode' l' := by
  have blocks : blocksFor blockSize bytes ≤ 2 ^ 52 := by
    rw [blocksFor_le_iff (by decide)]
    simp only [blockSize]
    omega
  rw [mtlExpandInode_eq inv file]
  rcases expandLoop_cases inv file blockSize_pos device_lt (by
      simp only [mtlStorageGetMetadata, numBlocks]
      omega) (le_refl _) ok with none | ⟨db', inode', l', returned, expanded, _⟩
  · exact Or.inl none
  · exact Or.inr ⟨db', inode', l', returned, expanded⟩

/-- A file that gets shorter is cut at its new end. -/
theorem mtlTruncate_shrink {offset : Nat} (short : offset < inode.length)
    (ok : CallsOk db.allocator (shrinkCalls blockSize offset l 0)) :
    ∃ db' l', mtlTruncate mtlStorageGetMetadata db id offset = some db' ∧
      Shrunk mtlStorageGetMetadata id offset db inode l db' l' := by
  obtain ⟨db', l', walked, shrunk⟩ :=
    truncateLoop_spec inv file blockSize_pos device_lt numBlocks_lt short ok
  refine ⟨db', l', ?_, shrunk⟩
  simp only [mtlTruncate, file.1, Option.bind_eq_bind, Option.bind_some,
    if_neg (Nat.not_le.mpr short), walked]

omit inv in
theorem mtlTruncate_grow {offset : Nat} (long : inode.length ≤ offset) :
    mtlTruncate mtlStorageGetMetadata db id offset =
      mtlExpandInode mtlStorageGetMetadata db id l offset := by
  simp only [mtlTruncate, file.1, Option.bind_eq_bind, Option.bind_some, if_pos long]

end

/-! ## Writing and reading -/

theorem mtlWrite_eq {fs : Fs} (file : fs.db.FileAt id inode l) {buffer : List Byte} {offset : Nat} :
    mtlWrite mtlStorageGetMetadata fs id buffer offset =
      (mtlExpandInode mtlStorageGetMetadata fs.db id l (u64 (offset + buffer.length))).bind
        fun db => (mtlStorageWrite db fs.storage id offset buffer).map fun storage =>
          { db, storage } := by
  simp only [mtlWrite, file.1, Option.map_some, Option.getD_some, Option.bind_eq_bind]
  congr 1
  funext db
  cases mtlStorageWrite db fs.storage id offset buffer <;> rfl

/-- A write that has room returns; each byte of the buffer is where the file has it,
and no other byte of the device changed. -/
theorem mtlWrite_spec {fs : Fs} (inv : fs.db.Inv mtlStorageGetMetadata)
    (file : fs.db.FileAt id inode l) {buffer : List Byte} {offset : Nat}
    (device : offset + buffer.length < numBlocks * blockSize)
    (room : missingBlocks l (offset + buffer.length) ≤ fs.db.allocator.freeBlocks)
    (short : ∀ db' ∈ mtlExpandInode mtlStorageGetMetadata fs.db id l (offset + buffer.length),
      ∀ r ∈ mtlLoadFile db' id, r.2.length ≤ mtlMaxExtents)
    (ok : GrowOk (missingBlocks l (offset + buffer.length)) fs.db.allocator (l.getLastD ⟨0, 0⟩)
      (missingBlocks l (offset + buffer.length))) :
    ∃ fs' inode' l', mtlWrite mtlStorageGetMetadata fs id buffer offset = some fs' ∧
      Expanded mtlStorageGetMetadata id (offset + buffer.length) fs.db inode l fs'.db inode' l' ∧
      l'.length ≤ mtlMaxExtents ∧
      (∀ i x, (small : i < buffer.length) →
        locate (byteSegments l') (offset + i) = some x → fs'.storage x = buffer[i]) ∧
      ∀ x, (∀ i < buffer.length, locate (byteSegments l') (offset + i) ≠ some x) →
        fs'.storage x = fs.storage x := by
  have small : offset + buffer.length < 2 ^ 64 := by
    simp only [numBlocks, blockSize] at device
    omega
  rcases mtlExpandInode_cases inv file small ok with
    ⟨_, lacking⟩ | ⟨db', inode', l', expandedTo, expanded⟩
  · omega
  · have shortList : l'.length ≤ mtlMaxExtents := short db' expandedTo _ expanded.file.1
    have fits : offset + buffer.length ≤ total (byteSegments l') := by
      rw [total_byteSegments_eq, ← blocksFor_le_iff (by decide), expanded.blocks]
      exact le_max_right _ _
    obtain ⟨storage', written, content, frame⟩ := mtlStorageWrite_spec fs.storage
      expanded.file.1 shortList (expanded.inv.inside expanded.file)
      (expanded.inv.byteSegments_disjoint expanded.file) device fits
    refine ⟨⟨db', storage'⟩, inode', l', ?_, expanded, shortList, content, frame⟩
    rw [mtlWrite_eq file, u64_of_lt small, expandedTo, Option.bind_some, written, Option.map_some]

theorem readLen_eq {length : Nat} (size offset : Nat) (lengthSmall : length < 2 ^ 63)
    (small : offset + size < 2 ^ 63) : readLen length size offset = min size (length - offset) := by
  have sumEq : u64 (offset + size) = offset + size := u64_of_lt (by omega)
  unfold readLen
  rw [sumEq]
  split
  · omega
  · split
    · unfold u64
      omega
    · omega

/-- A read returns the bytes the file has stored in the range, up to its length. -/
theorem mtlRead_spec {fs : Fs} (inv : fs.db.Inv mtlStorageGetMetadata)
    (file : fs.db.FileAt id inode l) (short : l.length ≤ mtlMaxExtents) {size offset : Nat}
    (device : offset + size < numBlocks * blockSize) :
    ∃ bytes, mtlRead fs id size offset = some bytes ∧
      bytes.length = min size (inode.length - offset) ∧
      ∀ i x, i < bytes.length → locate (byteSegments l) (offset + i) = some x →
        bytes[i]? = some (fs.storage x) := by
  have covered := inv.covered file
  have count := inv.blockCount_le file
  simp only [mtlStorageGetMetadata, numBlocks, blockSize] at covered count device
  have lenEq := readLen_eq size offset (show inode.length < 2 ^ 63 by omega) (by omega)
  by_cases some : 0 < readLen inode.length size offset
  · obtain ⟨bytes, read, lengthEq, content⟩ := mtlStorageRead_spec fs.storage
      file.1 short (inv.inside file)
      (show offset + readLen inode.length size offset < numBlocks * blockSize by
        simp only [numBlocks, blockSize]; omega)
      (by rw [total_byteSegments_eq]; simp only [blockSize]; omega)
    refine ⟨bytes, ?_, by rw [lengthEq, lenEq], ?_⟩
    · simp only [mtlRead, file.1, Option.bind_eq_bind, Option.bind_some, if_pos some, read]
    · rw [lengthEq]
      exact content
  · refine ⟨[], ?_, ?_, fun i x small => absurd small (by simp)⟩
    · simp only [mtlRead, file.1, Option.bind_eq_bind, Option.bind_some, if_neg some]
    · rw [List.length_nil]
      omega

end MetalFs
