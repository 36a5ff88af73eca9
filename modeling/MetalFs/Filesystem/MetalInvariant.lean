import MetalFs.Filesystem.ExtentSpec
import MetalFs.Filesystem.Metal
import MetalFs.Lib.Segments

/-!
# The file system invariant

`Db.Inv` ties the files to the allocator: every extent of a file is a committed
extent of the extents database of the same offset and length, no two entries of
any extent lists share an offset, and the blocks of a file hold its length.  With
the allocator's partition this makes all extents of all files pairwise disjoint
(`Inv.disjoint`, `Inv.disjoint_of_ne`).

An operation on one file changes that file's inode and the allocator only
(`Db.Frame`); `Inv.update` says what is left to check for it.
-/

namespace MetalFs

open Segments

/-- A file inode and its extents. -/
def Db.FileAt (db : Db) (id : Nat) (inode : Inode) (l : List FileExtent) : Prop :=
  mtlLoadFile db id = some (inode, l) ∧ inode.type = .file

/-- The number of blocks of a file. -/
def blockCount (l : List FileExtent) : Nat := (l.map FileExtent.length).sum

/-- The extent as a segment of blocks. -/
def FileExtent.segment (e : FileExtent) : Segment := ⟨e.offset, e.length⟩

/-- The blocks of a file in file order. -/
def blockSegments (l : List FileExtent) : List Segment := l.map FileExtent.segment

theorem total_blockSegments (l : List FileExtent) : total (blockSegments l) = blockCount l := by
  simp only [total, blockSegments, List.map_map, blockCount]
  rfl

theorem blockSegments_append (l r : List FileExtent) :
    blockSegments (l ++ r) = blockSegments l ++ blockSegments r := List.map_append

theorem blockCount_cons (e : FileExtent) (l : List FileExtent) :
    blockCount (e :: l) = e.length + blockCount l := by
  simp only [blockCount, List.map_cons, List.sum_cons]

theorem blockCount_append (l r : List FileExtent) :
    blockCount (l ++ r) = blockCount l + blockCount r := by
  simp only [blockCount, List.map_append, List.sum_append]

theorem blockCount_singleton (e : FileExtent) : blockCount [e] = e.length := by
  simp only [blockCount, List.map_cons, List.map_nil, List.sum_cons, List.sum_nil, Nat.add_zero]

/-- Allocated extents at different offsets are disjoint. -/
theorem Allocator.Inv.disjoint_of_allocated {a : Allocator} {N : Nat} (inv : a.Inv N)
    {e e' : FileExtent} (first : a.Allocated e.offset e.length)
    (second : a.Allocated e'.offset e'.length) (different : e.offset ≠ e'.offset) :
    e.segment.Disjoint e'.segment := by
  obtain ⟨x, stored, _, length⟩ := first
  obtain ⟨x', stored', _, length'⟩ := second
  rintro y ⟨low, high⟩ ⟨low', high'⟩
  refine different (inv.tiling.eq_of_mem (pieces_of_get stored) (pieces_of_get stored')
    low ?_ low' ?_)
  · rw [length]
    exact high
  · rw [length']
    exact high'

/-! ## The number of blocks for a length -/

theorem blocksFor_le_iff {blockSize bytes k : Nat} (positive : 0 < blockSize) :
    blocksFor blockSize bytes ≤ k ↔ bytes ≤ k * blockSize := by
  have whole := Nat.div_add_mod bytes blockSize
  have rest := Nat.mod_lt bytes positive
  unfold blocksFor
  split
  · rw [Nat.add_one_le_iff, Nat.div_lt_iff_lt_mul positive]
    refine ⟨Nat.le_of_lt, fun le => Nat.lt_of_le_of_ne le ?_⟩
    rintro rfl
    exact absurd (Nat.mul_mod_left k blockSize) ‹_›
  · rw [Nat.div_le_iff_le_mul_add_pred positive]
    constructor
    · intro le
      have multiple : bytes = blockSize * (bytes / blockSize) := by omega
      have quotient : bytes / blockSize ≤ k := by
        rw [Nat.div_le_iff_le_mul_add_pred positive]
        exact le
      calc bytes = blockSize * (bytes / blockSize) := multiple
        _ ≤ blockSize * k := Nat.mul_le_mul_left _ quotient
        _ = k * blockSize := Nat.mul_comm _ _
    · intro le
      rw [Nat.mul_comm]
      omega

/-! ## The invariant -/

/-- The files and the allocator agree, and no block belongs to two extents. -/
structure Db.Inv (db : Db) (metadata : StorageMetadata) : Prop where
  allocator : db.allocator.Inv metadata.numBlocks
  committed : ∀ {id inode l}, db.FileAt id inode l →
    ∀ e ∈ l, db.allocator.Committed e.offset e.length
  nodup : ∀ {id inode l}, db.FileAt id inode l → (l.map FileExtent.offset).Nodup
  apart : ∀ {id id' inode inode' l l'}, db.FileAt id inode l → db.FileAt id' inode' l' →
    id ≠ id' → ∀ e ∈ l, ∀ e' ∈ l', e.offset ≠ e'.offset
  covered : ∀ {id inode l}, db.FileAt id inode l →
    inode.length ≤ blockCount l * metadata.blockSize
  unused : ∀ id, db.nextInode.getD 1 ≤ id → mtlLoadInode db id = none

/-- `db'` differs from `db` at most in the allocator and in one inode. -/
structure Db.Frame (id : Nat) (db db' : Db) : Prop where
  inodes : ∀ other, other ≠ id → mtlLoadInode db' other = mtlLoadInode db other
  nextInode : db'.nextInode = db.nextInode

namespace Db.Frame

variable {id other : Nat} {db db' db'' : Db}

theorem refl (id : Nat) (db : Db) : Frame id db db := ⟨fun _ _ => rfl, rfl⟩

theorem trans (first : Frame id db db') (second : Frame id db' db'') : Frame id db db'' :=
  ⟨fun other different => (second.inodes other different).trans (first.inodes other different),
    second.nextInode.trans first.nextInode⟩

theorem loadFile (frame : Frame id db db') (different : other ≠ id) :
    mtlLoadFile db' other = mtlLoadFile db other := by
  simp only [mtlLoadFile, frame.inodes other different]

theorem fileAt (frame : Frame id db db') (different : other ≠ id) {inode : Inode}
    {l : List FileExtent} : db'.FileAt other inode l ↔ db.FileAt other inode l := by
  unfold Db.FileAt
  rw [frame.loadFile different]

end Db.Frame

namespace Db.Inv

variable {db db' : Db} {metadata : StorageMetadata} {id id' : Nat} {inode inode' : Inode}
  {l l' : List FileExtent}

theorem pos (inv : db.Inv metadata) (file : db.FileAt id inode l) {e : FileExtent}
    (member : e ∈ l) : 0 < e.length := by
  obtain ⟨x, stored, _, length⟩ := inv.committed file e member
  have positive := inv.allocator.pos stored
  omega

theorem le (inv : db.Inv metadata) (file : db.FileAt id inode l) {e : FileExtent}
    (member : e ∈ l) : e.offset + e.length ≤ metadata.numBlocks := by
  obtain ⟨x, stored, _, length⟩ := inv.committed file e member
  have inside := inv.allocator.le stored
  omega

/-- The extents of one file are pairwise disjoint. -/
theorem disjoint (inv : db.Inv metadata) (file : db.FileAt id inode l) :
    (blockSegments l).Pairwise Segment.Disjoint := by
  have distinct := inv.nodup file
  rw [List.Nodup, List.pairwise_map] at distinct
  rw [blockSegments, List.pairwise_map]
  refine distinct.imp_of_mem ?_
  intro e e' member member' different
  exact inv.allocator.disjoint_of_allocated (inv.committed file e member).allocated
    (inv.committed file e' member').allocated different

/-- The extents of two files are disjoint. -/
theorem disjoint_of_ne (inv : db.Inv metadata) (file : db.FileAt id inode l)
    (file' : db.FileAt id' inode' l') (different : id ≠ id') {e e' : FileExtent}
    (member : e ∈ l) (member' : e' ∈ l') : e.segment.Disjoint e'.segment :=
  inv.allocator.disjoint_of_allocated (inv.committed file e member).allocated
    (inv.committed file' e' member').allocated (inv.apart file file' different e member e' member')

/-- No file has more blocks than the device. -/
theorem blockCount_le (inv : db.Inv metadata) (file : db.FileAt id inode l) :
    blockCount l ≤ metadata.numBlocks := by
  rw [← total_blockSegments]
  refine total_le (inv.disjoint file) ?_
  intro s member
  obtain ⟨e, inList, rfl⟩ := List.mem_map.mp member
  exact inv.le file inList

/-- What an operation on the file `id` has to establish. -/
theorem update (inv : db.Inv metadata) (file : db.FileAt id inode l) (frame : Db.Frame id db db')
    (file' : db'.FileAt id inode' l') (allocator : db'.allocator.Inv metadata.numBlocks)
    (kept : ∀ {o n}, (∀ e ∈ l, e.offset ≠ o) → db.allocator.Committed o n →
      db'.allocator.Committed o n)
    (own : ∀ e ∈ l', db'.allocator.Committed e.offset e.length)
    (nodup : (l'.map FileExtent.offset).Nodup)
    (fresh : ∀ e' ∈ l', (∃ e ∈ l, e.offset = e'.offset) ∨
      ∀ n, ¬ db.allocator.Committed e'.offset n)
    (covered : inode'.length ≤ blockCount l' * metadata.blockSize) : db'.Inv metadata := by
  have same : ∀ {inode₁ l₁}, db'.FileAt id inode₁ l₁ → inode₁ = inode' ∧ l₁ = l' := by
    intro inode₁ l₁ found
    have := found.1.symm.trans file'.1
    cases this
    exact ⟨rfl, rfl⟩
  -- The new extents of the file are at other offsets than those of any other file.
  have distinct : ∀ {other inode₁ l₁}, db.FileAt other inode₁ l₁ → other ≠ id →
      ∀ e ∈ l', ∀ e₁ ∈ l₁, e.offset ≠ e₁.offset := by
    intro other inode₁ l₁ found different e member e₁ member₁ shared
    rcases fresh e member with ⟨e₂, member₂, offset⟩ | never
    · exact inv.apart file found different.symm e₂ member₂ e₁ member₁ (offset.trans shared)
    · rw [shared] at never
      exact never _ (inv.committed found e₁ member₁)
  constructor
  · exact allocator
  · intro other inode₁ l₁ found
    by_cases this : other = id
    · subst this
      obtain ⟨rfl, rfl⟩ := same found
      exact own
    · rw [frame.fileAt this] at found
      intro e member
      exact kept (fun e₁ member₁ => inv.apart file found (Ne.symm this) e₁ member₁ e member)
        (inv.committed found e member)
  · intro other inode₁ l₁ found
    by_cases this : other = id
    · subst this
      obtain ⟨rfl, rfl⟩ := same found
      exact nodup
    · exact inv.nodup ((frame.fileAt this).mp found)
  · intro first second inode₁ inode₂ l₁ l₂ found₁ found₂ different
    by_cases this : first = id
    · subst this
      obtain ⟨rfl, rfl⟩ := same found₁
      exact distinct ((frame.fileAt different.symm).mp found₂) different.symm
    · by_cases that : second = id
      · subst that
        obtain ⟨rfl, rfl⟩ := same found₂
        intro e member e' member' shared
        exact distinct ((frame.fileAt this).mp found₁) this e' member' e member shared.symm
      · exact inv.apart ((frame.fileAt this).mp found₁) ((frame.fileAt that).mp found₂) different
  · intro other inode₁ l₁ found
    by_cases this : other = id
    · subst this
      obtain ⟨rfl, rfl⟩ := same found
      exact covered
    · exact inv.covered ((frame.fileAt this).mp found)
  · intro other above
    rw [frame.nextInode] at above
    have absent := inv.unused other above
    by_cases this : other = id
    · subst this
      have loaded := file.1
      simp only [mtlLoadFile, absent, Option.bind_eq_bind, Option.bind_none] at loaded
      cases loaded
    · rw [frame.inodes other this]
      exact absent

end Db.Inv

end MetalFs
