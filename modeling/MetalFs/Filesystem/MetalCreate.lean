import MetalFs.Filesystem.ExtentRuns
import MetalFs.Filesystem.MetalInvariant

/-!
# Creating files

`mtl_initialize` establishes the file system invariant and `mtl_create` keeps it:
the new inode id was not in use, the only other inode that is written is that of
the parent directory, and the allocator is not involved.
-/

namespace MetalFs

open OrderedStore

/-- A metadata store without entries. -/
def emptyDb : Db := ⟨∅, ⟨∅, ∅⟩, none⟩

variable {db db' : Db} {metadata : StorageMetadata}

/-- Appending an entry only writes the inode of the directory. -/
theorem mtlAppendInodeIdToDirectory_ok {dirInodeId inodeId : Nat} {filename : List Byte}
    (returned : mtlAppendInodeIdToDirectory db dirInodeId filename inodeId = some (.ok db')) :
    ∃ dirInode dirData length data, mtlLoadInode db dirInodeId = some (dirInode, dirData) ∧
      dirInode.type = .directory ∧
      db' = mtlPutInode db dirInodeId { dirInode with length } data := by
  unfold mtlAppendInodeIdToDirectory at returned
  cases loaded : mtlLoadInode db dirInodeId with
  | none => simp [loaded] at returned
  | some entry =>
    obtain ⟨dirInode, dirData⟩ := entry
    simp only [loaded, Option.bind_eq_bind, Option.bind_some] at returned
    split at returned
    · cases returned
    · rename_i isDirectory
      split at returned
      · cases returned
      · cases returned
        exact ⟨dirInode, dirData, _, _, rfl, not_not.mp isDirectory, rfl⟩

/-- The type of an inode stays what it is when it is written back. -/
theorem fileAt_put_directory {dirInodeId : Nat} {dirInode : Inode} {dirData : List Byte}
    (length : Nat) (data : List Byte) (loaded : mtlLoadInode db dirInodeId = some (dirInode, dirData))
    (isDirectory : dirInode.type = .directory) {id : Nat} {inode : Inode} {l : List FileExtent} :
    (mtlPutInode db dirInodeId { dirInode with length } data).FileAt id inode l ↔
      db.FileAt id inode l := by
  unfold Db.FileAt
  by_cases this : id = dirInodeId
  · subst this
    constructor
    · rintro ⟨found, isFile⟩
      simp only [mtlLoadFile, mtlLoadInode, mtlPutInode, get_put_self, Option.bind_eq_bind,
        Option.bind_some] at found
      cases found
      rw [isDirectory] at isFile
      cases isFile
    · rintro ⟨found, isFile⟩
      simp only [mtlLoadFile, loaded, Option.bind_eq_bind, Option.bind_some] at found
      cases found
      rw [isDirectory] at isFile
      cases isFile
  · rw [mtlLoadFile_put_of_ne this]

/-- The invariant does not depend on empty files. -/
theorem Db.Inv.of_newFile (inv : db.Inv metadata) (allocator : db'.allocator = db.allocator)
    (files : ∀ {id inode l}, db'.FileAt id inode l →
      l = [] ∧ inode.length = 0 ∨ db.FileAt id inode l)
    (unused : ∀ id, db'.nextInode.getD 1 ≤ id → mtlLoadInode db' id = none) : db'.Inv metadata := by
  refine ⟨allocator ▸ inv.allocator, ?_, ?_, ?_, ?_, unused⟩
  · intro id inode l found e member
    rcases files found with ⟨rfl, -⟩ | old
    · exact absurd member List.not_mem_nil
    · exact allocator ▸ inv.committed old e member
  · intro id inode l found
    rcases files found with ⟨rfl, -⟩ | old
    · exact List.nodup_nil
    · exact inv.nodup old
  · intro id id' inode inode' l l' found found' different e member e' member'
    rcases files found with ⟨rfl, -⟩ | old
    · exact absurd member List.not_mem_nil
    · rcases files found' with ⟨rfl, -⟩ | old'
      · exact absurd member' List.not_mem_nil
      · exact inv.apart old old' different e member e' member'
  · intro id inode l found
    rcases files found with ⟨-, empty⟩ | old
    · rw [empty]
      exact Nat.zero_le _
    · exact inv.covered old

/-- What a successful `mtl_create` did. -/
structure Created (metadata : StorageMetadata) (db : Db) (id : Nat) (db' : Db) : Prop where
  inv : db'.Inv metadata
  allocator : db'.allocator = db.allocator
  absent : ∀ inode l, ¬ db.FileAt id inode l
  file : ∃ inode, db'.FileAt id inode [] ∧ inode.length = 0
  others : ∀ {other inode l}, other ≠ id → (db'.FileAt other inode l ↔ db.FileAt other inode l)

theorem mtlCreateFileInDirectory_spec {dirInodeId mode id : Nat} {filename : List Byte} {now : Int}
    (inv : db.Inv metadata)
    (returned : mtlCreateFileInDirectory db dirInodeId filename mode now = some (.ok (id, db'))) :
    Created metadata db id db' := by
  simp only [mtlCreateFileInDirectory, mtlNextInodeId, Option.bind_eq_bind] at returned
  obtain ⟨result, appended, rest⟩ := Option.bind_eq_some_iff.mp returned
  cases result with
  | error code => cases rest
  | ok db₁ =>
    simp only [Option.some.injEq, Except.ok.injEq, Prod.mk.injEq] at rest
    obtain ⟨rfl, rfl⟩ := rest
    obtain ⟨dirInode, dirData, length, data, loaded, isDirectory, rfl⟩ :=
      mtlAppendInodeIdToDirectory_ok appended
    have absent : mtlLoadInode db (db.nextInode.getD 1) = none := inv.unused _ (le_refl _)
    have notFile : ∀ inode l, ¬ db.FileAt (db.nextInode.getD 1) inode l := by
      rintro inode l ⟨found, -⟩
      simp only [mtlLoadFile, absent, Option.bind_eq_bind, Option.bind_none] at found
      cases found
    generalize idEq : db.nextInode.getD 1 = id at *
    have others : ∀ {other inode l}, other ≠ id →
        ((mtlPutInode (mtlPutInode { db with nextInode := some (id + 1) } dirInodeId
          { dirInode with length } data) id
            ⟨.file, 0, 0, 0, now, now, now, mode ||| sIfreg⟩ []).FileAt other inode l ↔
          db.FileAt other inode l) := by
      intro other inode l different
      have same : ({ db with nextInode := some (id + 1) } : Db).FileAt other inode l ↔
          db.FileAt other inode l := Iff.rfl
      rw [← same, ← fileAt_put_directory length data loaded isDirectory]
      unfold Db.FileAt
      rw [mtlLoadFile_put_of_ne different]
    have created : ∀ {inode l}, (mtlPutInode (mtlPutInode { db with nextInode := some (id + 1) }
        dirInodeId { dirInode with length } data) id
          ⟨.file, 0, 0, 0, now, now, now, mode ||| sIfreg⟩ []).FileAt id inode l →
        l = [] ∧ inode.length = 0 := by
      rintro inode l ⟨found, -⟩
      simp only [mtlLoadFile, mtlLoadInode, mtlPutInode, get_put_self, Option.bind_eq_bind,
        Option.bind_some] at found
      cases found
      exact ⟨rfl, rfl⟩
    refine ⟨inv.of_newFile rfl ?_ ?_, rfl, notFile, ?_, others⟩
    · intro other inode l found
      by_cases this : other = id
      · subst this
        exact Or.inl (created found)
      · exact Or.inr ((others this).mp found)
    · intro other above
      have beyond : id + 1 ≤ other := above
      have notDirectory : other ≠ dirInodeId := by
        rintro rfl
        have none := inv.unused other (by omega)
        rw [show mtlLoadInode db other = some (dirInode, dirData) from loaded] at none
        cases none
      rw [mtlLoadInode_put_of_ne (by omega), mtlLoadInode_put_of_ne notDirectory]
      exact inv.unused other (by omega)
    · exact ⟨_, ⟨mtlLoadFile_put_self fun _ member => absurd member List.not_mem_nil, rfl⟩, rfl⟩

/-- `mtl_create` keeps the invariant and adds one empty file. -/
theorem mtlCreate_spec {filename : List Byte} {mode id : Nat} {now : Int}
    (inv : db.Inv metadata) (returned : mtlCreate db filename mode now = some (.ok (id, db'))) :
    Created metadata db id db' := by
  simp only [mtlCreate, Option.bind_eq_bind] at returned
  obtain ⟨parent, _, rest⟩ := Option.bind_eq_some_iff.mp returned
  cases parent with
  | error code => cases rest
  | ok parentDirInodeId => exact mtlCreateFileInDirectory_spec inv rest

/-! ## A fresh store -/

/-- The root directory is the only inode, and nothing was allocated. -/
structure RootOnly (db : Db) : Prop where
  root : ∃ inode data, mtlLoadInode db 0 = some (inode, data) ∧ inode.type = .directory
  others : ∀ id, id ≠ 0 → mtlLoadInode db id = none
  nextInode : db.nextInode = none
  allocator : db.allocator = ⟨∅, ∅⟩

theorem RootOnly.append (root : RootOnly db) (filename : List Byte) (inodeId : Nat) :
    ∃ result, mtlAppendInodeIdToDirectory db 0 filename inodeId = some result ∧
      RootOnly (result.toOption.getD db) := by
  obtain ⟨inode, data, loaded, isDirectory⟩ := root.root
  simp only [mtlAppendInodeIdToDirectory, loaded, Option.bind_eq_bind, Option.bind_some,
    if_neg (not_not.mpr isDirectory)]
  split
  · exact ⟨_, rfl, root⟩
  · refine ⟨_, rfl, ⟨_, _, get_put_self _ _ _, isDirectory⟩, ?_, root.nextInode, root.allocator⟩
    intro id different
    exact (mtlLoadInode_put_of_ne different).trans (root.others id different)

theorem mtlCreateRootDirectory_emptyDb (now : Int) :
    ∃ db, mtlCreateRootDirectory emptyDb now = some db ∧ RootOnly db := by
  have start : RootOnly (mtlPutInode emptyDb 0
      ⟨.directory, 0, 0, 0, now, now, now, 0o755 ||| sIfdir⟩ []) :=
    ⟨⟨_, _, get_put_self _ _ _, rfl⟩, fun _ different => mtlLoadInode_put_of_ne different, rfl, rfl⟩
  obtain ⟨dot, appended, root⟩ := start.append dotName 0
  obtain ⟨dotDot, appended', root'⟩ := root.append (dotName ++ dotName) 0
  refine ⟨_, ?_, root'⟩
  have absent : mtlLoadInode emptyDb 0 = none := rfl
  simp only [mtlCreateRootDirectory, absent, appended, appended', Option.bind_eq_bind,
    Option.bind_some]

/-- `mtl_initialize` of an empty store returns, and there are no files. -/
theorem mtlInitialize_fresh (metadata : StorageMetadata) (now : Int) :
    ∃ db, mtlInitialize emptyDb metadata now = some db ∧ (∀ id inode l, ¬ db.FileAt id inode l) ∧
      db.allocator = freshAllocator metadata.numBlocks ∧ db.nextInode = none ∧
      ∀ id, id ≠ 0 → mtlLoadInode db id = none := by
  obtain ⟨db, created, root⟩ := mtlCreateRootDirectory_emptyDb now
  refine ⟨{ db with allocator := mtlInitializeExtents db.allocator metadata.numBlocks },
    by simp only [mtlInitialize, created, Option.bind_eq_bind, Option.bind_some], ?_, ?_,
    root.nextInode, root.others⟩
  · rintro id inode l ⟨found, isFile⟩
    have found' : mtlLoadFile db id = some (inode, l) := found
    by_cases this : id = 0
    · subst this
      obtain ⟨dir, data, loaded, isDirectory⟩ := root.root
      simp only [mtlLoadFile, loaded, Option.bind_eq_bind, Option.bind_some] at found'
      cases found'
      rw [isDirectory] at isFile
      cases isFile
    · simp only [mtlLoadFile, root.others id this, Option.bind_eq_bind, Option.bind_none] at found'
      cases found'
  · dsimp only
    rw [root.allocator]
    rfl

/-- The invariant holds of a store that `mtl_initialize` has set up. -/
theorem mtlInitialize_spec (metadata : StorageMetadata) (positive : 0 < metadata.numBlocks)
    (now : Int) :
    ∃ db, mtlInitialize emptyDb metadata now = some db ∧ db.Inv metadata ∧
      (∀ id inode l, ¬ db.FileAt id inode l) ∧
      db.allocator = freshAllocator metadata.numBlocks := by
  obtain ⟨db, returned, noFiles, allocator, nextInode, others⟩ := mtlInitialize_fresh metadata now
  refine ⟨db, returned, ⟨?_, ?_, ?_, ?_, ?_, ?_⟩, noFiles, allocator⟩
  · rw [allocator]
    exact Allocator.Inv.initial positive
  · exact fun found => absurd found (noFiles _ _ _)
  · exact fun found => absurd found (noFiles _ _ _)
  · exact fun found => absurd found (noFiles _ _ _)
  · exact fun found => absurd found (noFiles _ _ _)
  · intro id above
    rw [nextInode, Option.getD_none] at above
    exact others id (by omega)

end MetalFs
