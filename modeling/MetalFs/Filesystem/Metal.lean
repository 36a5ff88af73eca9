import MetalFs.Filesystem.Storage

/-!
# The file operations

`metal.c`: creating a file, growing and shrinking it, and reading and writing its
bytes through the storage backend.  Every operation is one transaction on the
databases; writing and reading then copy the data.

`none` stands for a failed `assert`, a read through the pointer of a failed
lookup, or a recursion that does not end.
-/

namespace MetalFs

/-- `mtl_storage_metadata`. -/
structure StorageMetadata where
  numBlocks : Nat
  blockSize : Nat

/-- `mtl_storage_get_metadata` of the in-memory backend. -/
def mtlStorageGetMetadata : StorageMetadata := ⟨numBlocks, blockSize⟩

/-! ## Paths -/

/-- The character `/`. -/
def slash : Byte := byte 47

/-- The path without its trailing slashes. -/
def stripSlashes (path : List Byte) : List Byte := (path.reverse.dropWhile (· = slash)).reverse

/-- What `dirname` returns for a path of slashes: `/`, but exactly two slashes are kept. -/
def slashDir (path : List Byte) : List Byte := if path = [slash, slash] then path else [slash]

/-- `dirname`.  Two slashes that start a path are a root of their own, as POSIX allows it: the
`dirname` of `//a` and of `//` is `//`, that of `/a` and of `///a` is `/`. -/
def dirname (path : List Byte) : List Byte :=
  let path' := stripSlashes path
  if path' = [] then (if path = [] then dotName else slashDir path)
  else if slash ∈ path' then
    let dir := (path'.reverse.dropWhile (· ≠ slash)).reverse
    if stripSlashes dir = [] then slashDir dir else stripSlashes dir
  else dotName

/-- `basename`. -/
def basename (path : List Byte) : List Byte :=
  let path' := stripSlashes path
  if path' = [] then (if path = [] then dotName else [slash])
  else (path'.reverse.takeWhile (· ≠ slash)).reverse

/-- `mtl_resolve_inode`.  A path without a leading slash, or with exactly two, is its own `dirname`
after a while, and the recursion does not end. -/
def mtlResolveInode (db : Db) : Nat → List Byte → Option (Except MtlCode Nat)
  | 0, _ => none
  | fuel + 1, path => do
    let dirInodeId ← if dirname path = [slash] then some (.ok 0)
      else mtlResolveInode db fuel (dirname path)
    match dirInodeId with
    | .error code => some (.error code)
    | .ok dirInodeId =>
      if basename path = [slash] then some (.ok 0)
      else mtlResolveInodeInDirectory db dirInodeId (basename path)

/-- `mtl_resolve_parent_dir_inode`. -/
def mtlResolveParentDirInode (db : Db) (path : List Byte) : Option (Except MtlCode Nat) :=
  if dirname path = [slash] then some (.ok 0)
  else mtlResolveInode db (path.length + 1) (dirname path)

/-! ## Creating -/

/-- `mtl_initialize` on the databases of a metadata store. -/
def mtlInitialize (db : Db) (metadata : StorageMetadata) (now : Int) : Option Db := do
  let db ← mtlCreateRootDirectory db now
  some { db with allocator := mtlInitializeExtents db.allocator metadata.numBlocks }

/-- `mtl_create`, with the written `*inode_id`.  A call that reports an error
aborts its transaction. -/
def mtlCreate (db : Db) (filename : List Byte) (mode : Nat) (now : Int) :
    Option (Except MtlCode (Nat × Db)) := do
  match ← mtlResolveParentDirInode db filename with
  | .error code => some (.error code)
  | .ok parentDirInodeId =>
    mtlCreateFileInDirectory db parentDirInodeId (basename filename) mode now

/-! ## Growing -/

/-- The number of blocks that `bytes` bytes need. -/
def blocksFor (blockSize bytes : Nat) : Nat :=
  if bytes % blockSize ≠ 0 then bytes / blockSize + 1 else bytes / blockSize

/-- The `last_extent` argument of `mtl_reserve_extent`; an extent of length `0`
stands for none. -/
def lastExtentArg (lastExtent : FileExtent) : Option FileExtent :=
  if lastExtent.length ≠ 0 then some lastExtent else none

/-- The last extent of the file once `newExtent` belongs to it: a reservation at
its offset has grown it. -/
def growLastExtent (lastExtent newExtent : FileExtent) : FileExtent :=
  if lastExtent.length ≠ 0 ∧ lastExtent.offset = newExtent.offset then
    { lastExtent with length := u64 (lastExtent.length + newExtent.length) }
  else newExtent

/-- The end of a round of `mtl_expand_inode`: the file gets the new blocks. -/
def assignExtent (db : Db) (inodeId : Nat) (lastExtent newExtent : FileExtent)
    (newLength : Nat) : Option Db :=
  if lastExtent.length ≠ 0 ∧ lastExtent.offset = newExtent.offset then
    mtlExtendLastExtentInFile db inodeId (growLastExtent lastExtent newExtent) newLength
  else mtlAddExtentToFile db inodeId newExtent newLength

/-- The loop of `mtl_expand_inode`.  Every round adds a block, so that the number
of missing blocks bounds the number of rounds. -/
def expandLoop (metadata : StorageMetadata) (inodeId writeEndBytes : Nat) :
    Nat → Db → Nat → FileExtent → Option Db
  | 0, db, current, _ =>
    if current < blocksFor metadata.blockSize writeEndBytes then none else some db
  | fuel + 1, db, current, lastExtent =>
    if current < blocksFor metadata.blockSize writeEndBytes then do
      let (length, offset, allocator) ← mtlReserveExtent db.allocator
        (blocksFor metadata.blockSize writeEndBytes - current) (lastExtentArg lastExtent) true
      let current := u64 (current + length)
      if length = 0 then none
      else do
        let newExtent : FileExtent := ⟨← offset, length⟩
        let newLength := if u64 (current * metadata.blockSize) < writeEndBytes then
          u64 (current * metadata.blockSize) else writeEndBytes
        let db ← assignExtent { db with allocator } inodeId lastExtent newExtent newLength
        expandLoop metadata inodeId writeEndBytes fuel db current
          (growLastExtent lastExtent newExtent)
    else some db

/-- `mtl_expand_inode`. -/
def mtlExpandInode (metadata : StorageMetadata) (db : Db) (inodeId : Nat)
    (extents : List FileExtent) (size : Nat) : Option Db :=
  let current := u64 (extents.map FileExtent.length).sum
  expandLoop metadata inodeId size (blocksFor metadata.blockSize size - current) db current
    (extents.getLastD ⟨0, 0⟩)

/-! ## Shrinking -/

/-- The loop of `mtl_truncate` over the extents of a file that gets shorter. -/
def truncateLoop (metadata : StorageMetadata) (inodeId offset : Nat) :
    List FileExtent → Nat → Nat → Db → Option Db
  | [], _, _, db => some db
  | extent :: extents, i, previousExtentEnd, db => do
    let extentEnd := u64 (previousExtentEnd + extent.length * metadata.blockSize)
    let db ←
      if offset < previousExtentEnd then do
        let allocator ← mtlFreeExtent db.allocator extent.offset
        some { db with allocator }
      else if offset < extentEnd then
        let newExtentLengthBlocks := blocksFor metadata.blockSize (offset - previousExtentEnd)
        if newExtentLengthBlocks ≠ 0 then do
          let allocator ← mtlTruncateExtent db.allocator extent.offset newExtentLengthBlocks
          mtlTruncateFileExtents { db with allocator } inodeId offset (i + 1)
            (some newExtentLengthBlocks)
        else do
          let allocator ← mtlFreeExtent db.allocator extent.offset
          mtlTruncateFileExtents { db with allocator } inodeId offset i none
      else some db
    truncateLoop metadata inodeId offset extents (i + 1) extentEnd db

/-- `mtl_truncate`. -/
def mtlTruncate (metadata : StorageMetadata) (db : Db) (inodeId offset : Nat) : Option Db := do
  let (inode, extents) ← mtlLoadFile db inodeId
  if inode.length ≤ offset then mtlExpandInode metadata db inodeId extents offset
  else truncateLoop metadata inodeId offset extents 0 0 db

/-! ## Reading and writing -/

/-- The databases and the buffer of the storage backend. -/
structure Fs where
  db : Db
  storage : Storage

/-- `mtl_write` of the bytes of `buffer`. -/
def mtlWrite (metadata : StorageMetadata) (fs : Fs) (inodeId : Nat) (buffer : List Byte)
    (offset : Nat) : Option Fs := do
  -- Nothing is loaded for an inode that does not exist, and its code is ignored.
  let extents := ((mtlLoadFile fs.db inodeId).map Prod.snd).getD []
  let db ← mtlExpandInode metadata fs.db inodeId extents (u64 (offset + buffer.length))
  let storage ← mtlStorageWrite db fs.storage inodeId offset buffer
  some { db, storage }

/-- The `read_len` of `mtl_read`. -/
def readLen (length size offset : Nat) : Nat :=
  if length < offset then 0
  else if length < u64 (offset + size) then u64 (size + length + 2 ^ 64 - u64 (offset + size))
  else size

/-- `mtl_read`: the `read_len` bytes it writes to its buffer. -/
def mtlRead (fs : Fs) (inodeId size offset : Nat) : Option (List Byte) := do
  let (inode, _) ← mtlLoadFile fs.db inodeId
  if 0 < readLen inode.length size offset then
    mtlStorageRead fs.db fs.storage inodeId offset (readLen inode.length size offset)
  else some []

end MetalFs
