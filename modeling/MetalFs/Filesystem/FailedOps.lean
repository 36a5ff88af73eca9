import MetalFs.Filesystem.DirectoryEntries
import MetalFs.Filesystem.MetalCreate
import MetalFs.Lib.Runs

/-!
# Failed operations

An operation that reports an error has to leave the databases as they were and the store open to the
next writer, and a lookup that fails has to make the operation fail.  `mtl_unlink` never aborts its
transaction: it goes on with what its locals happen to hold and, if there is no such inode, returns
in the middle of the transaction.  `mtl_rmdir` and `mtl_rename` abort, but the buffer of
`mtl_remove_entry_from_directory` is sized before the name is looked up, and the size of a directory
that is shorter than one entry of that name wraps around.
-/

namespace MetalFs

open OrderedStore

/-! ## Lookups -/

/-- The directory of the path is not found. -/
def ParentLookupFails (db : Db) (filename : List Byte) : Prop :=
  ∃ code, mtlResolveParentDirInode db filename = some (.error code)

/-- The directory of the path is found, and the last component is not. -/
def EntryLookupFails (db : Db) (filename : List Byte) : Prop :=
  ∃ dirInodeId code, mtlResolveParentDirInode db filename = some (.ok dirInodeId) ∧
    mtlResolveInodeInDirectory db dirInodeId (basename filename) = some (.error code)

/-- A lookup that the call makes fails. -/
def NamespaceOp.LookupFails (db : Db) : NamespaceOp → Prop
  | mkdir filename _ _ => ParentLookupFails db filename
  | create filename _ _ => ParentLookupFails db filename
  | rmdir filename => ParentLookupFails db filename ∨ EntryLookupFails db filename
  | rename fromFilename toFilename =>
    ParentLookupFails db fromFilename ∨
      (∃ dirInodeId, mtlResolveParentDirInode db fromFilename = some (.ok dirInodeId)) ∧
        ParentLookupFails db toFilename ∨
      (∃ dirInodeId, mtlResolveParentDirInode db toFilename = some (.ok dirInodeId)) ∧
        EntryLookupFails db fromFilename
  | unlink filename => ParentLookupFails db filename ∨ EntryLookupFails db filename
  | chown path _ _ => ∃ code, mtlResolveInode db (path.length + 1) path = some (.error code)

/-- The call returns another code than `MTL_SUCCESS`. -/
def TxnEnd.Failed : TxnEnd → Prop
  | committed _ => False
  | aborted _ => True
  | leftOpen _ => True

/-- A call that fails has changed nothing and released the store, and a failed lookup makes it
fail. -/
structure FailsCleanly (db : Db) (op : NamespaceOp) : Prop where
  unchanged : ∀ u ended, op.txn u db = some ended → ended.Failed →
    Env.transact ⟨db, false⟩ (fun db => op.txn u db) = some ⟨db, false⟩
  lookup : op.LookupFails db → ∀ u, ∃ ended, op.txn u db = some ended ∧ ended.Failed

/-! ## Removing an entry that is not there -/

/-- The entries that are kept reach the end of the shorter buffer before the end of the
directory. -/
theorem removeEntryLoop_missing {dirData filename : List Byte} {dirDataLength newDataLength : Nat}
    (room : newDataLength + sizeofDirectoryEntryHead ≤ dirDataLength) (fuel : Nat) :
    ∀ (entry : Option Nat) (newData : List Byte) (inodeId : Option Nat),
      findDirectoryEntry dirData dirDataLength filename fuel entry = none →
      nextPosition dirData entry ≤ newDataLength →
      dirDataLength < nextPosition dirData entry + fuel →
      removeEntryLoop dirData dirDataLength filename newDataLength fuel entry
        (nextPosition dirData entry) newData inodeId = (inodeId, .error .errorNoentry) := by
  induction fuel with
  | zero =>
    intro entry newData inodeId missing fits enough
    omega
  | succ fuel ih =>
    intro entry newData inodeId missing fits enough
    have loaded : mtlLoadNextDirectoryEntry dirData dirDataLength entry =
        some (nextPosition dirData entry) := by
      rw [mtlLoadNextDirectoryEntry_eq, if_neg (by omega)]
    rw [findDirectoryEntry, loaded] at missing
    rw [removeEntryLoop, loaded]
    dsimp only at missing ⊢
    split at missing
    · cases missing
    rename_i other
    rw [if_neg other]
    split
    · rfl
    · rename_i kept
      have behind : nextPosition dirData (some (nextPosition dirData entry)) =
          nextPosition dirData entry + sizeofDirectoryEntryHead +
            entryNameLen dirData (nextPosition dirData entry) := rfl
      have head : sizeofDirectoryEntryHead = 16 := rfl
      rw [← behind]
      exact ih _ _ _ missing (by omega) (by omega)

/-- The inode id that leaves the directory with the entries of the name. -/
def removedInodeId (dirInode : Inode) (dirData filename : List Byte) : Option Nat :=
  (removeEntryLoop dirData dirInode.length filename
    (dirInode.length - (sizeofDirectoryEntryHead + filename.length)) (dirInode.length + 1) none 0 []
    none).1

section Remove

variable {u : Uninitialised} {db : Db} {dirInodeId : Nat} {filename : List Byte}
  {dirInode : Inode} {dirData : List Byte}

theorem mtlRemoveEntryFromDirectory_file (loaded : mtlLoadInode db dirInodeId = some (dirInode, dirData))
    (file : dirInode.type ≠ .directory) :
    mtlRemoveEntryFromDirectory u db dirInodeId filename =
      some (none, .error .errorNotdirectory) := by
  simp only [mtlRemoveEntryFromDirectory, loaded, Option.bind_eq_bind, Option.bind_some, if_pos file]

theorem mtlRemoveEntryFromDirectory_short
    (loaded : mtlLoadInode db dirInodeId = some (dirInode, dirData))
    (directory : dirInode.type = .directory)
    (short : dirInode.length < sizeofDirectoryEntryHead + filename.length) :
    mtlRemoveEntryFromDirectory u db dirInodeId filename = none := by
  simp only [mtlRemoveEntryFromDirectory, loaded, Option.bind_eq_bind, Option.bind_some, directory,
    ne_eq, not_true_eq_false, if_false, if_pos short]

theorem mtlRemoveEntryFromDirectory_missing
    (loaded : mtlLoadInode db dirInodeId = some (dirInode, dirData))
    (directory : dirInode.type = .directory)
    (missing : findDirectoryEntry dirData dirInode.length filename (dirInode.length + 1) none = none)
    (room : sizeofDirectoryEntryHead + filename.length ≤ dirInode.length) :
    mtlRemoveEntryFromDirectory u db dirInodeId filename = some (none, .error .errorNoentry) := by
  have looped := removeEntryLoop_missing
    (show dirInode.length - (sizeofDirectoryEntryHead + filename.length) + sizeofDirectoryEntryHead
      ≤ dirInode.length by omega) (dirInode.length + 1) none [] none missing (Nat.zero_le _)
    (by simp only [nextPosition]; omega)
  rw [nextPosition] at looped
  simp only [mtlRemoveEntryFromDirectory, loaded, Option.bind_eq_bind, Option.bind_some, directory,
    ne_eq, not_true_eq_false, if_false, if_neg (Nat.not_lt.mpr room), looped]

/-- What is removed from a directory that is long enough, and how the databases change. -/
theorem mtlRemoveEntryFromDirectory_long
    (loaded : mtlLoadInode db dirInodeId = some (dirInode, dirData))
    (directory : dirInode.type = .directory)
    (room : sizeofDirectoryEntryHead + filename.length ≤ dirInode.length) :
    ∃ removed, mtlRemoveEntryFromDirectory u db dirInodeId filename =
        some (removedInodeId dirInode dirData filename, removed) ∧
      (removed.toOption.getD db = db ∨ ∃ inode data,
        removed.toOption.getD db = mtlPutInode db dirInodeId inode data) := by
  unfold removedInodeId
  simp only [mtlRemoveEntryFromDirectory, loaded, Option.bind_eq_bind, Option.bind_some, directory,
    ne_eq, not_true_eq_false, if_false, if_neg (Nat.not_lt.mpr room)]
  generalize removeEntryLoop dirData dirInode.length filename
    (dirInode.length - (sizeofDirectoryEntryHead + filename.length)) (dirInode.length + 1) none 0 []
    none = result
  rcases result with ⟨inodeId, code | newData⟩
  · exact ⟨_, rfl, Or.inl rfl⟩
  · exact ⟨_, rfl, Or.inr ⟨_, _, rfl⟩⟩

end Remove

/-! ## When an operation fails cleanly -/

/-- A name that is not in the directory of the path is no longer than the directory allows. -/
def EntryFits (db : Db) (filename : List Byte) : Prop :=
  ∀ dirInodeId dirInode dirData, mtlResolveParentDirInode db filename = some (.ok dirInodeId) →
    mtlLoadInode db dirInodeId = some (dirInode, dirData) → dirInode.type = .directory →
    findDirectoryEntry dirData dirInode.length (basename filename) (dirInode.length + 1) none =
      none →
    sizeofDirectoryEntryHead + (basename filename).length ≤ dirInode.length

/-- The inode that the entry of the path names is stored. -/
def EntryStored (db : Db) (filename : List Byte) : Prop :=
  ∀ dirInodeId dirInode dirData, mtlResolveParentDirInode db filename = some (.ok dirInodeId) →
    mtlLoadInode db dirInodeId = some (dirInode, dirData) → dirInode.type = .directory →
    sizeofDirectoryEntryHead + (basename filename).length ≤ dirInode.length →
    ∃ inodeId, removedInodeId dirInode dirData (basename filename) = some inodeId ∧
      mtlLoadInode db inodeId ≠ none

/-- The branches that go wrong are not taken. -/
def NamespaceOp.Safe (db : Db) : NamespaceOp → Prop
  | mkdir _ _ _ => True
  | create _ _ _ => True
  | rmdir filename => EntryFits db filename
  | rename fromFilename toFilename =>
    (∃ dirInodeId, mtlResolveParentDirInode db toFilename = some (.ok dirInodeId)) →
      EntryFits db fromFilename
  | unlink filename =>
    ¬ ParentLookupFails db filename ∧ ¬ EntryLookupFails db filename ∧ EntryStored db filename
  | chown _ _ _ => True

variable {u : Uninitialised} {db : Db} {filename : List Byte}

/-- The transaction is not left open. -/
def Ends (txn : Option TxnEnd) : Prop := ∀ code, txn ≠ some (.leftOpen code)

theorem Ends.unchanged {op : NamespaceOp} {ended : TxnEnd} (ends : Ends (op.txn u db))
    (returned : op.txn u db = some ended) (failed : ended.Failed) :
    Env.transact ⟨db, false⟩ (fun db => op.txn u db) = some ⟨db, false⟩ := by
  cases ended with
  | committed db' => exact failed.elim
  | aborted code => simp [Env.transact, returned]
  | leftOpen code => exact absurd returned (ends code)

theorem mtlMkdir_ends (mode : Nat) (now : Int) : Ends (mtlMkdir db filename mode now) := by
  intro code left
  simp only [mtlMkdir, Option.bind_eq_bind, Option.bind_eq_some_iff] at left
  rcases left with ⟨_ | dirInodeId, -, left⟩
  · cases left
  · simp only [Option.bind_eq_some_iff] at left
    rcases left with ⟨_ | _, -, left⟩ <;> cases left

theorem createTxn_ends (mode : Nat) (now : Int) : Ends (createTxn db filename mode now) := by
  intro code left
  simp only [createTxn, Option.bind_eq_bind, Option.bind_eq_some_iff] at left
  rcases left with ⟨_ | _, -, left⟩ <;> cases left

theorem mtlChown_ends (uid gid : Int) : Ends (mtlChown db filename uid gid) := by
  intro code left
  simp only [mtlChown, Option.bind_eq_bind, Option.bind_eq_some_iff] at left
  rcases left with ⟨_ | inodeId, -, left⟩
  · cases left
  · dsimp only at left
    split at left <;> cases left

theorem mtlRmdir_ends : Ends (mtlRmdir u db filename) := by
  intro code left
  simp only [mtlRmdir, Option.bind_eq_bind, Option.bind_eq_some_iff] at left
  rcases left with ⟨_ | dirInodeId, -, left⟩
  · cases left
  · simp only [Option.bind_eq_some_iff] at left
    rcases left with ⟨⟨inodeId, _ | db'⟩, -, left⟩
    · cases left
    · simp only [Option.bind_eq_some_iff] at left
      rcases left with ⟨_ | _, -, left⟩ <;> cases left

theorem mtlRename_ends (toFilename : List Byte) : Ends (mtlRename u db filename toFilename) := by
  intro code left
  simp only [mtlRename, Option.bind_eq_bind, Option.bind_eq_some_iff] at left
  rcases left with ⟨_ | fromParent, -, left⟩
  · cases left
  simp only [Option.bind_eq_some_iff] at left
  rcases left with ⟨_ | toParent, -, left⟩
  · cases left
  simp only [Option.bind_eq_some_iff] at left
  rcases left with ⟨⟨inodeId, _ | db'⟩, -, left⟩
  · cases left
  · simp only [Option.bind_eq_some_iff] at left
    rcases left with ⟨_ | _, -, left⟩ <;> cases left

/-! ### Lookups that fail -/

theorem mtlResolveInodeInDirectory_error {dirInodeId : Nat} {code : MtlCode}
    (failed : mtlResolveInodeInDirectory db dirInodeId filename = some (.error code)) :
    ∃ dirInode dirData, mtlLoadInode db dirInodeId = some (dirInode, dirData) ∧
      (dirInode.type ≠ .directory ∨ dirInode.type = .directory ∧
        findDirectoryEntry dirData dirInode.length filename (dirInode.length + 1) none = none) := by
  simp only [mtlResolveInodeInDirectory, Option.bind_eq_bind, Option.bind_eq_some_iff] at failed
  rcases failed with ⟨⟨dirInode, dirData⟩, loaded, failed⟩
  refine ⟨dirInode, dirData, loaded, ?_⟩
  by_cases directory : dirInode.type = .directory
  · simp only [directory, ne_eq, not_true_eq_false, if_false] at failed
    split at failed
    · cases failed
    · rename_i missing
      exact Or.inr ⟨directory, missing⟩
  · exact Or.inl directory

theorem mtlResolveInodeInDirectory_missing {dirInodeId : Nat} {dirInode : Inode}
    {dirData : List Byte} (loaded : mtlLoadInode db dirInodeId = some (dirInode, dirData))
    (directory : dirInode.type = .directory)
    (missing : findDirectoryEntry dirData dirInode.length filename (dirInode.length + 1) none =
      none) :
    mtlResolveInodeInDirectory db dirInodeId filename = some (.error .errorNoentry) := by
  simp only [mtlResolveInodeInDirectory, loaded, Option.bind_eq_bind, Option.bind_some, directory,
    ne_eq, not_true_eq_false, if_false, missing]

/-- An entry that is not found is not removed, if its name fits. -/
theorem remove_of_entryLookupFails (fits : EntryFits db filename)
    (failed : EntryLookupFails db filename) :
    ∃ dirInodeId code, mtlResolveParentDirInode db filename = some (.ok dirInodeId) ∧
      mtlRemoveEntryFromDirectory u db dirInodeId (basename filename) =
        some (none, .error code) := by
  rcases failed with ⟨dirInodeId, code, parent, failed⟩
  rcases mtlResolveInodeInDirectory_error failed with
    ⟨dirInode, dirData, loaded, file | ⟨directory, missing⟩⟩
  · exact ⟨dirInodeId, _, parent, mtlRemoveEntryFromDirectory_file loaded file⟩
  · exact ⟨dirInodeId, _, parent, mtlRemoveEntryFromDirectory_missing loaded directory missing
      (fits _ _ _ parent loaded directory missing)⟩

/-- A name that does not fit is not found, and the attempt to remove it goes wrong. -/
theorem entryLookupFails_of_not_entryFits (tooLong : ¬ EntryFits db filename) :
    EntryLookupFails db filename ∧ ∃ dirInodeId,
      mtlResolveParentDirInode db filename = some (.ok dirInodeId) ∧
      ∀ u, mtlRemoveEntryFromDirectory u db dirInodeId (basename filename) = none := by
  simp only [EntryFits, not_forall] at tooLong
  rcases tooLong with ⟨dirInodeId, dirInode, dirData, parent, loaded, directory, missing, short⟩
  refine ⟨⟨dirInodeId, _, parent, mtlResolveInodeInDirectory_missing loaded directory missing⟩,
    dirInodeId, parent, ?_⟩
  intro u
  exact mtlRemoveEntryFromDirectory_short loaded directory (Nat.lt_of_not_le short)

/-! ### The operations that abort -/

theorem failsCleanly_mkdir (mode : Nat) (now : Int) :
    FailsCleanly db (.mkdir filename mode now) := by
  constructor
  · intro u ended returned failed
    exact Ends.unchanged (mtlMkdir_ends mode now) returned failed
  · intro missing u
    rcases missing with ⟨code, parent⟩
    refine ⟨.aborted code, ?_, trivial⟩
    simp only [NamespaceOp.txn, mtlMkdir, parent, Option.bind_eq_bind, Option.bind_some]

theorem failsCleanly_create (mode : Nat) (now : Int) :
    FailsCleanly db (.create filename mode now) := by
  constructor
  · intro u ended returned failed
    exact Ends.unchanged (createTxn_ends mode now) returned failed
  · intro missing u
    rcases missing with ⟨code, parent⟩
    refine ⟨.aborted code, ?_, trivial⟩
    simp only [NamespaceOp.txn, createTxn, mtlCreate, parent, Option.bind_eq_bind,
      Option.bind_some]

theorem failsCleanly_chown (uid gid : Int) : FailsCleanly db (.chown filename uid gid) := by
  constructor
  · intro u ended returned failed
    exact Ends.unchanged (mtlChown_ends uid gid) returned failed
  · intro missing u
    rcases missing with ⟨code, lookup⟩
    refine ⟨.aborted code, ?_, trivial⟩
    simp only [NamespaceOp.txn, mtlChown, lookup, Option.bind_eq_bind, Option.bind_some]

theorem failsCleanly_rmdir_iff : FailsCleanly db (.rmdir filename) ↔ EntryFits db filename := by
  constructor
  · intro clean
    by_contra tooLong
    rcases entryLookupFails_of_not_entryFits tooLong with ⟨missing, dirInodeId, parent, short⟩
    rcases clean.lookup (Or.inr missing) ⟨0, 0, fun _ => 0⟩ with ⟨ended, returned, -⟩
    simp [NamespaceOp.txn, mtlRmdir, parent, short] at returned
  · intro fits
    constructor
    · intro u ended returned failed
      exact Ends.unchanged mtlRmdir_ends returned failed
    · intro missing u
      rcases missing with ⟨code, parent⟩ | missing
      · refine ⟨.aborted code, ?_, trivial⟩
        simp only [NamespaceOp.txn, mtlRmdir, parent, Option.bind_eq_bind, Option.bind_some]
      · rcases @remove_of_entryLookupFails u _ _ fits missing with ⟨dirInodeId, code, parent, removed⟩
        refine ⟨.aborted code, ?_, trivial⟩
        simp only [NamespaceOp.txn, mtlRmdir, parent, removed, Option.bind_eq_bind,
          Option.bind_some]

theorem failsCleanly_rename_iff {toFilename : List Byte} :
    FailsCleanly db (.rename filename toFilename) ↔
      ((∃ dirInodeId, mtlResolveParentDirInode db toFilename = some (.ok dirInodeId)) →
        EntryFits db filename) := by
  constructor
  · intro clean found
    by_contra tooLong
    rcases entryLookupFails_of_not_entryFits tooLong with ⟨missing, fromParent, parent, short⟩
    rcases clean.lookup (Or.inr (Or.inr ⟨found, missing⟩)) ⟨0, 0, fun _ => 0⟩ with
      ⟨ended, returned, -⟩
    rcases found with ⟨toParent, found⟩
    simp [NamespaceOp.txn, mtlRename, parent, found, short] at returned
  · intro fits
    constructor
    · intro u ended returned failed
      exact Ends.unchanged (mtlRename_ends toFilename) returned failed
    · intro missing u
      rcases missing with ⟨code, parent⟩ | ⟨⟨fromParent, parent⟩, code, target⟩ | ⟨found, missing⟩
      · refine ⟨.aborted code, ?_, trivial⟩
        simp only [NamespaceOp.txn, mtlRename, parent, Option.bind_eq_bind, Option.bind_some]
      · refine ⟨.aborted code, ?_, trivial⟩
        simp only [NamespaceOp.txn, mtlRename, parent, target, Option.bind_eq_bind,
          Option.bind_some]
      · rcases @remove_of_entryLookupFails u _ _ (fits found) missing with
          ⟨fromParent, code, parent, removed⟩
        rcases found with ⟨toParent, found⟩
        refine ⟨.aborted code, ?_, trivial⟩
        simp only [NamespaceOp.txn, mtlRename, parent, found, removed, Option.bind_eq_bind,
          Option.bind_some]

/-! ### Unlinking -/

theorem mtlUnlink_not_aborted {code : MtlCode} : mtlUnlink u db filename ≠ some (.aborted code) := by
  intro aborted
  simp only [mtlUnlink, Option.bind_eq_bind, Option.bind_eq_some_iff] at aborted
  rcases aborted with ⟨parent, -, ⟨removedId, removed⟩, -, aborted⟩
  dsimp only at aborted
  split at aborted
  · cases aborted
  · simp only [Option.bind_eq_some_iff] at aborted
    rcases aborted with ⟨allocator, -, aborted⟩
    cases aborted

/-- The transaction stays open where the inode that is left to unlink does not exist. -/
theorem mtlUnlink_leftOpen_iff {dirInodeId : Nat} {removedId : Option Nat}
    {removed : Except MtlCode Db}
    (parent : mtlResolveParentDirInode db filename = some (.ok dirInodeId))
    (remove : mtlRemoveEntryFromDirectory u db dirInodeId (basename filename) =
      some (removedId, removed)) :
    (∃ code, mtlUnlink u db filename = some (.leftOpen code)) ↔
      mtlLoadInode (removed.toOption.getD db) (removedId.getD u.inodeId) = none := by
  have found : (Except.ok dirInodeId : Except MtlCode Nat).toOption.getD u.parentDirInodeId =
      dirInodeId := rfl
  simp only [mtlUnlink, parent, Option.bind_eq_bind, Option.bind_some, found, remove, mtlLoadFile]
  cases mtlLoadInode (removed.toOption.getD db) (removedId.getD u.inodeId) with
  | none => simp
  | some loaded => simp [Option.bind_eq_some_iff]

/-- Unlinking is clean only if its transaction ends, and then every lookup has found something. -/
theorem FailsCleanly.unlink_ends (clean : FailsCleanly db (.unlink filename)) (u : Uninitialised) :
    Ends (mtlUnlink u db filename) := by
  intro code left
  have same := clean.unchanged u (.leftOpen code) left trivial
  simp [Env.transact, NamespaceOp.txn, left] at same

theorem FailsCleanly.unlink_found (clean : FailsCleanly db (.unlink filename)) :
    ¬ NamespaceOp.LookupFails db (.unlink filename) := by
  intro missing
  rcases clean.lookup missing ⟨0, 0, fun _ => 0⟩ with ⟨ended, returned, failed⟩
  cases ended with
  | committed db' => exact failed
  | aborted code => exact mtlUnlink_not_aborted returned
  | leftOpen code => exact clean.unlink_ends _ code returned

theorem FailsCleanly.unlink_stored (clean : FailsCleanly db (.unlink filename)) :
    EntryStored db filename := by
  intro dirInodeId dirInode dirData parent loaded directory room
  rcases exists_get_eq_none db.inodes with ⟨unused, isUnused⟩
  let u : Uninitialised := ⟨0, unused, fun _ => 0⟩
  rcases @mtlRemoveEntryFromDirectory_long u _ _ _ _ _ loaded directory room with
    ⟨removed, remove, after⟩
  -- What is not stored is not stored without the entry either.
  have stays : ∀ inodeId, mtlLoadInode db inodeId = none →
      mtlLoadInode (removed.toOption.getD db) inodeId = none := by
    intro inodeId absent
    rcases after with same | ⟨inode, data, put⟩
    · rw [same, absent]
    · rw [put, mtlLoadInode_put_of_ne, absent]
      intro same
      rw [same, loaded] at absent
      cases absent
  have ends : mtlLoadInode (removed.toOption.getD db)
      ((removedInodeId dirInode dirData (basename filename)).getD unused) ≠ none := by
    intro absent
    rcases (mtlUnlink_leftOpen_iff parent remove).mpr absent with ⟨code, left⟩
    exact clean.unlink_ends u code left
  generalize removedInodeId dirInode dirData (basename filename) = removedId at ends ⊢
  cases removedId with
  | none => exact absurd (stays unused isUnused) ends
  | some inodeId => exact ⟨inodeId, rfl, fun absent => ends (stays inodeId absent)⟩

/-- What is found and stored is unlinked, or the allocator has no record of its extents. -/
theorem mtlUnlink_ends (found : ¬ ParentLookupFails db filename)
    (entry : ¬ EntryLookupFails db filename) (stored : EntryStored db filename) :
    Ends (mtlUnlink u db filename) := by
  intro code left
  have opened := left
  simp only [mtlUnlink, Option.bind_eq_bind, Option.bind_eq_some_iff] at opened
  rcases opened with ⟨parent | dirInodeId, parent', ⟨removedId, removed⟩, remove, -⟩
  · exact found ⟨_, parent'⟩
  simp only [Except.toOption, Option.getD_some] at remove
  have isNone := (mtlUnlink_leftOpen_iff parent' remove).mp ⟨code, left⟩
  cases loaded : mtlLoadInode db dirInodeId with
  | none => simp [mtlRemoveEntryFromDirectory, loaded] at remove
  | some found' =>
    rcases found' with ⟨dirInode, dirData⟩
    by_cases directory : dirInode.type = .directory
    · by_cases room : sizeofDirectoryEntryHead + (basename filename).length ≤ dirInode.length
      · rcases stored dirInodeId dirInode dirData parent' loaded directory room with
          ⟨inodeId, same, isSome⟩
        rcases @mtlRemoveEntryFromDirectory_long u _ _ _ _ _ loaded directory room with
          ⟨removed', remove', after⟩
        rw [remove, same] at remove'
        cases remove'
        rcases after with unchanged | ⟨inode, data, put⟩
        · rw [unchanged] at isNone
          exact isSome isNone
        · by_cases itself : inodeId = dirInodeId
          · subst itself
            simp [put, mtlLoadInode, mtlPutInode] at isNone
          · rw [put, Option.getD_some, mtlLoadInode_put_of_ne itself] at isNone
            exact isSome isNone
      · rw [mtlRemoveEntryFromDirectory_short loaded directory (Nat.lt_of_not_le room)] at remove
        cases remove
    · refine entry ⟨dirInodeId, .errorNotdirectory, parent', ?_⟩
      simp [mtlResolveInodeInDirectory, loaded, directory]

theorem failsCleanly_unlink_iff : FailsCleanly db (.unlink filename) ↔
    ¬ ParentLookupFails db filename ∧ ¬ EntryLookupFails db filename ∧ EntryStored db filename := by
  constructor
  · intro clean
    exact ⟨fun missing => clean.unlink_found (Or.inl missing),
      fun missing => clean.unlink_found (Or.inr missing), clean.unlink_stored⟩
  · intro safe
    rcases safe with ⟨found, entry, stored⟩
    constructor
    · intro u ended returned failed
      exact Ends.unchanged (mtlUnlink_ends found entry stored) returned failed
    · intro missing
      rcases missing with missing | missing
      · exact absurd missing found
      · exact absurd missing entry

theorem failsCleanly_op_iff (op : NamespaceOp) : FailsCleanly db op ↔ op.Safe db := by
  cases op with
  | mkdir filename mode now => exact iff_of_true (failsCleanly_mkdir mode now) trivial
  | create filename mode now => exact iff_of_true (failsCleanly_create mode now) trivial
  | rmdir filename => exact failsCleanly_rmdir_iff
  | rename fromFilename toFilename => exact failsCleanly_rename_iff
  | unlink filename => exact failsCleanly_unlink_iff
  | chown path uid gid => exact iff_of_true (failsCleanly_chown uid gid) trivial

/-! ## Runs -/

/-- The store after a call, of whose locals it is known what they hold. -/
def NamespaceOp.step (env : Env) (call : Uninitialised × NamespaceOp) : Option Env :=
  env.transact fun db => call.2.txn call.1 db

/-- A call that fails cleanly leaves no transaction open. -/
theorem FailsCleanly.released {env env' : Env} {call : Uninitialised × NamespaceOp}
    (released : env.writing = false) (clean : FailsCleanly env.db call.2)
    (returned : NamespaceOp.step env call = some env') : env'.writing = false := by
  rcases env with ⟨db, writing⟩
  cases released
  rw [NamespaceOp.step, Env.transact, if_neg Bool.false_ne_true] at returned
  rcases Option.map_eq_some_iff.mp returned with ⟨ended, txn, same⟩
  cases ended with
  | committed db' =>
    cases same
    rfl
  | aborted code =>
    cases same
    rfl
  | leftOpen code =>
    have unchanged := clean.unchanged call.1 _ txn trivial
    simp [Env.transact, txn] at unchanged

/-- In every state that is reached by calls that do not take a branch that goes wrong, no write
transaction is open, and a call fails cleanly exactly if it does not take such a branch either. -/
theorem run_failsCleanly_iff {db : Db} {env : Env} {calls : List (Uninitialised × NamespaceOp)}
    (safe : Runs.Steps NamespaceOp.step (fun env call => call.2.Safe env.db) ⟨db, false⟩ calls)
    (finished : Runs.run NamespaceOp.step ⟨db, false⟩ calls = some env) :
    env.writing = false ∧ ∀ op, FailsCleanly env.db op ↔ op.Safe env.db := by
  refine ⟨?_, failsCleanly_op_iff⟩
  refine @Runs.inv_of_run _ _ NamespaceOp.step (fun env call => call.2.Safe env.db)
    (fun env => env.writing = false) ?_ ⟨db, false⟩ env rfl calls safe finished
  intro env call env' released admitted returned
  exact FailsCleanly.released released ((failsCleanly_op_iff call.2).mpr admitted) returned

/-- Uninitialised locals that hold the number of no inode. -/
def garbage : Uninitialised := ⟨7, 7, fun _ => byte 0⟩

/-- A store in which nothing has been created. -/
def rootDb : Db := (mtlInitialize emptyDb ⟨8, 512⟩ 0).get (by decide +kernel)

/-- The path `/a`. -/
def pathA : List Byte := [slash, byte 97]

theorem run_failsCleanly_mkdir :
    Runs.Steps NamespaceOp.step (fun env call => call.2.Safe env.db) ⟨rootDb, false⟩
        [(garbage, .mkdir pathA 0 0)] ∧
      ∃ env, Runs.run NamespaceOp.step ⟨rootDb, false⟩ [(garbage, .mkdir pathA 0 0)] = some env ∧
        env.writing = false ∧ ∀ op, FailsCleanly env.db op ↔ op.Safe env.db := by
  have safe : Runs.Steps NamespaceOp.step (fun env call => call.2.Safe env.db) ⟨rootDb, false⟩
      [(garbage, .mkdir pathA 0 0)] := ⟨trivial, fun _ _ => trivial⟩
  have finished : Runs.run NamespaceOp.step ⟨rootDb, false⟩ [(garbage, .mkdir pathA 0 0)] =
      some ((Runs.run NamespaceOp.step ⟨rootDb, false⟩ [(garbage, .mkdir pathA 0 0)]).get
        (by decide +kernel)) := (Option.some_get _).symm
  exact ⟨safe, _, finished, run_failsCleanly_iff safe finished⟩

theorem not_failsCleanly_unlink_missing :
    mtlUnlink garbage rootDb pathA = some (.leftOpen .errorNoentry) ∧
      Runs.run NamespaceOp.step ⟨rootDb, false⟩ [(garbage, .unlink pathA)] = some ⟨rootDb, true⟩ ∧
      ¬ FailsCleanly rootDb (.unlink pathA) := by
  have left : mtlUnlink garbage rootDb pathA = some (.leftOpen .errorNoentry) := by decide +kernel
  refine ⟨left, ?_, ?_⟩
  · simp [Runs.run, NamespaceOp.step, Env.transact, NamespaceOp.txn, left]
  · intro clean
    have unchanged := clean.unchanged garbage _ left trivial
    simp [Env.transact, NamespaceOp.txn, left] at unchanged

end MetalFs
