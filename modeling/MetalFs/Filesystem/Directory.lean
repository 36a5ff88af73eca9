import MetalFs.Filesystem.Metal

/-!
# The namespace operations

The rest of `inode.c` and `metal.c`: making, removing and renaming directories and files, and
changing their owner.  Every operation is one write transaction, which ends in one of the ways of
`TxnEnd`; LMDB allows one write transaction at a time, so that an operation that leaves its
transaction open blocks all that follow (`Env`).

What a local variable holds that is read without being set is a parameter (`Uninitialised`).
-/

namespace MetalFs

/-! ## Directories -/

/-- What the uninitialised locals of an operation hold. -/
structure Uninitialised where
  parentDirInodeId : Nat
  inodeId : Nat
  newDirInodeData : Nat → Byte

/-- `mtl_delete_inode`. -/
def mtlDeleteInode (db : Db) (inodeId : Nat) : Db := { db with inodes := db.inodes.del inodeId }

/-- The loop of `mtl_remove_entry_from_directory`: the written `*inode_id` and, if the entries fit,
those that are kept. -/
def removeEntryLoop (dirData : List Byte) (dirDataLength : Nat) (filename : List Byte)
    (newDataLength : Nat) :
    Nat → Option Nat → Nat → List Byte → Option Nat → Option Nat × Except MtlCode (List Byte)
  | 0, _, _, newData, inodeId => (inodeId, .ok newData)
  | fuel + 1, entry, offset, newData, inodeId =>
    match mtlLoadNextDirectoryEntry dirData dirDataLength entry with
    | none => (inodeId, .ok newData)
    | some entry =>
      if filename.length = entryNameLen dirData entry ∧ entryName dirData entry = filename then
        removeEntryLoop dirData dirDataLength filename newDataLength fuel (some entry) offset newData
          (some (entryInodeId dirData entry))
      else if newDataLength < offset + entryNameLen dirData entry + sizeofDirectoryEntryHead then
        (inodeId, .error .errorNoentry)
      else
        removeEntryLoop dirData dirDataLength filename newDataLength fuel (some entry)
          (offset + sizeofDirectoryEntryHead + entryNameLen dirData entry)
          (newData ++ (dirData.drop entry).take
            (sizeofDirectoryEntryHead + entryNameLen dirData entry)) inodeId

/-- `mtl_remove_entry_from_directory`, with the written `*inode_id`.  The length of its buffer
wraps around if the directory is shorter than the entry, and such an array has no room on the
stack. -/
def mtlRemoveEntryFromDirectory (u : Uninitialised) (db : Db) (dirInodeId : Nat)
    (filename : List Byte) : Option (Option Nat × Except MtlCode Db) := do
  let (dirInode, dirData) ← mtlLoadInode db dirInodeId
  if dirInode.type ≠ .directory then some (none, .error .errorNotdirectory)
  else if dirInode.length < sizeofDirectoryEntryHead + filename.length then none
  else
    let newDataLength := dirInode.length - (sizeofDirectoryEntryHead + filename.length)
    match removeEntryLoop dirData dirInode.length filename newDataLength (dirInode.length + 1) none
      0 [] none with
    | (inodeId, .error code) => some (inodeId, .error code)
    | (inodeId, .ok newData) =>
      let unwritten := (List.range' newData.length (newDataLength - newData.length)).map
        u.newDirInodeData
      some (inodeId, .ok (mtlPutInode db dirInodeId { dirInode with length := newDataLength }
        (newData ++ unwritten)))

/-- The loop of `mtl_remove_directory`: there are no entries but `.` and `..`. -/
def isEmptyDirectory (dirData : List Byte) (dirDataLength : Nat) : Nat → Option Nat → Bool
  | 0, _ => true
  | fuel + 1, entry =>
    match mtlLoadNextDirectoryEntry dirData dirDataLength entry with
    | none => true
    | some entry =>
      if entryNameLen dirData entry = 1 ∧ entryName dirData entry = dotName ∨
          entryNameLen dirData entry = 2 ∧ entryName dirData entry = dotName ++ dotName then
        isEmptyDirectory dirData dirDataLength fuel (some entry)
      else false

/-- `mtl_remove_directory`. -/
def mtlRemoveDirectory (db : Db) (dirInodeId : Nat) : Option (Except MtlCode Db) := do
  let (dirInode, dirData) ← mtlLoadInode db dirInodeId
  if dirInode.type ≠ .directory then some (.error .errorNotdirectory)
  else if isEmptyDirectory dirData dirInode.length (dirInode.length + 1) none then
    some (.ok (mtlDeleteInode db dirInodeId))
  else some (.error .errorNotempty)

/-- `mtl_create_directory_in_directory`, with the written `*directory_file_inode_id`. -/
def mtlCreateDirectoryInDirectory (db : Db) (dirInodeId : Nat) (filename : List Byte) (mode : Nat)
    (now : Int) : Option (Except MtlCode (Nat × Db)) := do
  let (directoryFileInodeId, db) := mtlNextInodeId db
  match ← mtlAppendInodeIdToDirectory db dirInodeId filename directoryFileInodeId with
  | .error code => some (.error code)
  | .ok db =>
    let dirInode : Inode := ⟨.directory, 0, 0, 0, now, now, now, mode ||| sIfdir⟩
    let db := mtlPutInode db directoryFileInodeId dirInode []
    match ← mtlAppendInodeIdToDirectory db directoryFileInodeId dotName directoryFileInodeId with
    | .error code => some (.error code)
    | .ok db =>
      match ← mtlAppendInodeIdToDirectory db directoryFileInodeId (dotName ++ dotName)
        dirInodeId with
      | .error code => some (.error code)
      | .ok db => some (.ok (directoryFileInodeId, db))

/-! ## The operations -/

/-- How an operation ends its transaction, with the code it returns. -/
inductive TxnEnd where
  | committed (db : Db)
  | aborted (code : MtlCode)
  | leftOpen (code : MtlCode)
deriving DecidableEq

instance TxnEnd.decidableCommitted :
    ∀ txn : Option TxnEnd, Decidable (∃ db, txn = some (.committed db))
  | some (.committed db) => isTrue ⟨db, rfl⟩
  | some (.aborted _) => isFalse fun committed => by
    rcases committed with ⟨db, no⟩
    cases no
  | some (.leftOpen _) => isFalse fun committed => by
    rcases committed with ⟨db, no⟩
    cases no
  | none => isFalse fun committed => by
    rcases committed with ⟨db, no⟩
    cases no

/-- `mtl_mkdir`. -/
def mtlMkdir (db : Db) (filename : List Byte) (mode : Nat) (now : Int) : Option TxnEnd := do
  match ← mtlResolveParentDirInode db filename with
  | .error code => some (.aborted code)
  | .ok parentDirInodeId =>
    match ← mtlCreateDirectoryInDirectory db parentDirInodeId (basename filename) mode now with
    | .error code => some (.aborted code)
    | .ok (_, db) => some (.committed db)

/-- `mtl_rmdir`. -/
def mtlRmdir (u : Uninitialised) (db : Db) (filename : List Byte) : Option TxnEnd := do
  match ← mtlResolveParentDirInode db filename with
  | .error code => some (.aborted code)
  | .ok parentDirInodeId =>
    match ← mtlRemoveEntryFromDirectory u db parentDirInodeId (basename filename) with
    | (_, .error code) => some (.aborted code)
    | (inodeId, .ok db) =>
      match ← mtlRemoveDirectory db (inodeId.getD u.inodeId) with
      | .error code => some (.aborted code)
      | .ok db => some (.committed db)

/-- `mtl_chown`.  It returns a negative code where it fails. -/
def mtlChown (db : Db) (path : List Byte) (uid gid : Int) : Option TxnEnd := do
  match ← mtlResolveInode db (path.length + 1) path with
  | .error code => some (.aborted code)
  | .ok inodeId =>
    match mtlLoadInode db inodeId with
    | none => some (.aborted .errorNoentry)
    | some (oldInode, data) =>
      let newInode := { oldInode with
        user := uid, group := if 0 ≤ gid then gid else oldInode.group }
      some (.committed (mtlPutInode db inodeId newInode data))

/-- `mtl_rename`. -/
def mtlRename (u : Uninitialised) (db : Db) (fromFilename toFilename : List Byte) :
    Option TxnEnd := do
  match ← mtlResolveParentDirInode db fromFilename with
  | .error code => some (.aborted code)
  | .ok fromParentDirInodeId =>
    match ← mtlResolveParentDirInode db toFilename with
    | .error code => some (.aborted code)
    | .ok toParentDirInodeId =>
      match ← mtlRemoveEntryFromDirectory u db fromParentDirInodeId (basename fromFilename) with
      | (_, .error code) => some (.aborted code)
      | (inodeId, .ok db) =>
        match ← mtlAppendInodeIdToDirectory db toParentDirInodeId (basename toFilename)
          (inodeId.getD u.inodeId) with
        | .error code => some (.aborted code)
        | .ok db => some (.committed db)

/-- The loop of `mtl_unlink` over the extents of the file. -/
def freeExtents (a : Allocator) : List FileExtent → Option Allocator
  | [] => some a
  | extent :: extents => do freeExtents (← mtlFreeExtent a extent.offset) extents

/-- `mtl_unlink`.  The codes of the first two steps are ignored. -/
def mtlUnlink (u : Uninitialised) (db : Db) (filename : List Byte) : Option TxnEnd := do
  let parent ← mtlResolveParentDirInode db filename
  let (removedId, removed) ← mtlRemoveEntryFromDirectory u db
    (parent.toOption.getD u.parentDirInodeId) (basename filename)
  let db := removed.toOption.getD db
  let inodeId := removedId.getD u.inodeId
  match mtlLoadFile db inodeId with
  | none => some (.leftOpen .errorNoentry)
  | some (_, extents) => do
    let allocator ← freeExtents db.allocator extents
    some (.committed (mtlDeleteInode { db with allocator } inodeId))

/-- How `mtl_create` ends its transaction. -/
def createTxn (db : Db) (filename : List Byte) (mode : Nat) (now : Int) : Option TxnEnd := do
  match ← mtlCreate db filename mode now with
  | .error code => some (.aborted code)
  | .ok (_, db) => some (.committed db)

/-! ## The store -/

/-- The committed databases, and whether a write transaction has been left open. -/
structure Env where
  db : Db
  writing : Bool
deriving DecidableEq

/-- Run an operation in a write transaction.  `mdb_txn_begin` does not return while another one is
open. -/
def Env.transact (env : Env) (op : Db → Option TxnEnd) : Option Env :=
  if env.writing then none
  else (op env.db).map fun
    | .committed db => ⟨db, false⟩
    | .aborted _ => env
    | .leftOpen _ => { env with writing := true }

/-- A call of one of the namespace operations. -/
inductive NamespaceOp where
  | mkdir (filename : List Byte) (mode : Nat) (now : Int)
  | create (filename : List Byte) (mode : Nat) (now : Int)
  | rmdir (filename : List Byte)
  | rename (fromFilename toFilename : List Byte)
  | unlink (filename : List Byte)
  | chown (path : List Byte) (uid gid : Int)

/-- The transaction of a call. -/
def NamespaceOp.txn (u : Uninitialised) (db : Db) : NamespaceOp → Option TxnEnd
  | mkdir filename mode now => mtlMkdir db filename mode now
  | create filename mode now => createTxn db filename mode now
  | rmdir filename => mtlRmdir u db filename
  | rename fromFilename toFilename => mtlRename u db fromFilename toFilename
  | unlink filename => mtlUnlink u db filename
  | chown path uid gid => mtlChown db path uid gid

end MetalFs
