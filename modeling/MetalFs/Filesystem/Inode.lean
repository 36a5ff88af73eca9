import MetalFs.Filesystem.Extent

/-!
# The inodes database

`inode.c` and `meta.c`.  An inode is stored as its header followed by a data
section: the 16-byte extents of a file, or the entries of a directory, each a
16-byte head and the bytes of the name.

`none` stands for a read through the pointer of a failed lookup.  A call that
reports a code returns `Except.error` and leaves the databases as they were.
The counter behind the inode ids is a plain number: no store holds `2 ^ 64`
inodes.
-/

namespace MetalFs

/-- `MTL_inode_type`. -/
inductive InodeType where
  | file
  | directory
deriving DecidableEq, Repr

/-- `mtl_inode`. -/
structure Inode where
  type : InodeType
  length : Nat
  user : Int
  group : Int
  accessed : Int
  modified : Int
  created : Int
  mode : Nat
deriving DecidableEq, Repr

/-- The databases of a metadata store. -/
structure Db where
  inodes : OrderedStore Nat (Inode × List Byte)
  allocator : Allocator
  nextInode : Option Nat
deriving DecidableEq

/-! ## Loading and storing -/

/-- `sizeof(mtl_file_extent)`. -/
def sizeofFileExtent : Nat := 16

/-- The bytes of an `mtl_file_extent`. -/
def FileExtent.bytes (e : FileExtent) : List Byte := leBytes 8 e.offset ++ leBytes 8 e.length

/-- The bytes of an array of extents. -/
def extentBytes (extents : List FileExtent) : List Byte := extents.flatMap FileExtent.bytes

/-- The first `n` extents in a data section. -/
def extentsOfBytes : Nat → List Byte → List FileExtent
  | 0, _ => []
  | n + 1, data =>
    ⟨ofLeBytes (data.take 8), ofLeBytes ((data.drop 8).take 8)⟩ ::
      extentsOfBytes n (data.drop sizeofFileExtent)

/-- `mtl_load_inode`; `none` is `MTL_ERROR_NOENTRY`. -/
def mtlLoadInode (db : Db) (inodeId : Nat) : Option (Inode × List Byte) := db.inodes.get inodeId

/-- `mtl_load_file`. -/
def mtlLoadFile (db : Db) (inodeId : Nat) : Option (Inode × List FileExtent) := do
  let (inode, data) ← mtlLoadInode db inodeId
  some (inode, extentsOfBytes (data.length / sizeofFileExtent) data)

/-- `mtl_put_inode`. -/
def mtlPutInode (db : Db) (inodeId : Nat) (inode : Inode) (data : List Byte) : Db :=
  { db with inodes := db.inodes.put inodeId (inode, data) }

/-- `mtl_next_inode_id`. -/
def mtlNextInodeId (db : Db) : Nat × Db :=
  let result := db.nextInode.getD 1
  (result, { db with nextInode := some (result + 1) })

/-! ## The extents of a file -/

/-- The extent consists of 64-bit values. -/
def FileExtent.Fits (e : FileExtent) : Prop := e.offset < 2 ^ 64 ∧ e.length < 2 ^ 64

theorem length_extentBytes (extents : List FileExtent) :
    (extentBytes extents).length = sizeofFileExtent * extents.length := by
  induction extents with
  | nil => rfl
  | cons e extents ih =>
    simp only [extentBytes] at ih
    simp only [extentBytes, List.flatMap_cons, List.length_append, ih, FileExtent.bytes,
      length_leBytes, List.length_cons, sizeofFileExtent]
    omega

/-- What is left of an extent that is stored in 64-bit fields. -/
def FileExtent.wrap (e : FileExtent) : FileExtent := ⟨e.offset % 2 ^ 64, e.length % 2 ^ 64⟩

theorem FileExtent.Fits.wrap {e : FileExtent} (fits : e.Fits) : e.wrap = e := by
  rw [FileExtent.wrap, Nat.mod_eq_of_lt fits.1, Nat.mod_eq_of_lt fits.2]

theorem extentsOfBytes_extentBytes (extents : List FileExtent) :
    extentsOfBytes extents.length (extentBytes extents) = extents.map FileExtent.wrap := by
  induction extents with
  | nil => rfl
  | cons e extents ih =>
    have split : extentBytes (e :: extents) =
        leBytes 8 e.offset ++ (leBytes 8 e.length ++ extentBytes extents) := by
      simp only [extentBytes, List.flatMap_cons, FileExtent.bytes, List.append_assoc]
    have first : (extentBytes (e :: extents)).take 8 = leBytes 8 e.offset := by
      rw [split, List.take_left' (length_leBytes 8 _)]
    have second : (extentBytes (e :: extents)).drop 8 =
        leBytes 8 e.length ++ extentBytes extents := by
      rw [split, List.drop_left' (length_leBytes 8 _)]
    have rest : (extentBytes (e :: extents)).drop sizeofFileExtent = extentBytes extents := by
      rw [show sizeofFileExtent = 8 + 8 from rfl, ← List.drop_drop, second,
        List.drop_left' (length_leBytes 8 _)]
    rw [List.length_cons, extentsOfBytes, first, second, rest,
      List.take_left' (length_leBytes 8 _), ofLeBytes_leBytes, ofLeBytes_leBytes, ih]
    rfl

/-- What is stored as the extents of a file is loaded in 64-bit fields. -/
theorem mtlLoadFile_put (db : Db) (inodeId : Nat) (inode : Inode) (extents : List FileExtent) :
    mtlLoadFile (mtlPutInode db inodeId inode (extentBytes extents)) inodeId =
      some (inode, extents.map FileExtent.wrap) := by
  have count : (extentBytes extents).length / sizeofFileExtent = extents.length := by
    rw [length_extentBytes, Nat.mul_div_cancel_left _ (by decide)]
  simp only [mtlLoadFile, mtlLoadInode, mtlPutInode, OrderedStore.get_put_self,
    Option.bind_eq_bind, Option.bind_some, count, extentsOfBytes_extentBytes]

/-- What is stored as the extents of a file is loaded as these extents. -/
theorem mtlLoadFile_put_self {db : Db} {inodeId : Nat} {inode : Inode}
    {extents : List FileExtent} (fits : ∀ e ∈ extents, e.Fits) :
    mtlLoadFile (mtlPutInode db inodeId inode (extentBytes extents)) inodeId =
      some (inode, extents) := by
  have same : extents.map FileExtent.wrap = extents := by
    rw [List.map_congr_left fun e member => (fits e member).wrap, List.map_id']
  rw [mtlLoadFile_put, same]

theorem mtlLoadInode_put_of_ne {db : Db} {inodeId other : Nat} {inode : Inode}
    {data : List Byte} (different : other ≠ inodeId) :
    mtlLoadInode (mtlPutInode db inodeId inode data) other = mtlLoadInode db other :=
  OrderedStore.get_put_of_ne different

theorem mtlLoadFile_put_of_ne {db : Db} {inodeId other : Nat} {inode : Inode}
    {data : List Byte} (different : other ≠ inodeId) :
    mtlLoadFile (mtlPutInode db inodeId inode data) other = mtlLoadFile db other := by
  simp only [mtlLoadFile, mtlLoadInode_put_of_ne different]

/-- `mtl_add_extent_to_file`. -/
def mtlAddExtentToFile (db : Db) (inodeId : Nat) (newExtent : FileExtent) (newLength : Nat) :
    Option Db := do
  let (inode, extents) ← mtlLoadFile db inodeId
  some (mtlPutInode db inodeId { inode with length := newLength }
    (extentBytes (extents ++ [newExtent])))

/-- `mtl_extend_last_extent_in_file`. -/
def mtlExtendLastExtentInFile (db : Db) (inodeId : Nat) (newExtent : FileExtent)
    (newLength : Nat) : Option Db := do
  let (inode, extents) ← mtlLoadFile db inodeId
  if extents = [] then none
  else some (mtlPutInode db inodeId { inode with length := newLength }
    (extentBytes (extents.dropLast ++ [newExtent])))

/-- `mtl_truncate_file_extents`. -/
def mtlTruncateFileExtents (db : Db) (inodeId newFileLength extentsLength : Nat)
    (updateLastExtentLength : Option Nat) : Option Db := do
  let (inode, extents) ← mtlLoadFile db inodeId
  let extentData := extents.take extentsLength
  let extentData := match updateLastExtentLength with
    | none => extentData
    | some length => extentData.modify (extentsLength - 1) fun e => { e with length }
  some (mtlPutInode db inodeId { inode with length := newFileLength } (extentBytes extentData))

/-! ## Directories -/

/-- `sizeof(mtl_directory_entry_head)`. -/
def sizeofDirectoryEntryHead : Nat := 16

/-- The bytes of a directory entry; seven bytes of the head are padding. -/
def directoryEntryBytes (inodeId : Nat) (filename : List Byte) : List Byte :=
  leBytes 8 inodeId ++ leBytes 1 filename.length ++ List.replicate 7 (byte 0) ++ filename

/-- `entry->inode_id` of the entry at a position of the data section. -/
def entryInodeId (data : List Byte) (entry : Nat) : Nat := ofLeBytes ((data.drop entry).take 8)

/-- `entry->name_len`. -/
def entryNameLen (data : List Byte) (entry : Nat) : Nat :=
  ofLeBytes ((data.drop (entry + 8)).take 1)

/-- The name behind the head of the entry. -/
def entryName (data : List Byte) (entry : Nat) : List Byte :=
  (data.drop (entry + sizeofDirectoryEntryHead)).take (entryNameLen data entry)

/-- `mtl_load_next_directory_entry`: the position of the next entry. -/
def mtlLoadNextDirectoryEntry (dirData : List Byte) (dirDataLength : Nat) (entry : Option Nat) :
    Option Nat :=
  let result := match entry with
    | none => 0
    | some entry => entry + sizeofDirectoryEntryHead + entryNameLen dirData entry
  if dirDataLength < result + sizeofDirectoryEntryHead then none else some result

/-- The loop that looks for a file name.  Every entry has a head, so that there
are fewer entries than bytes. -/
def findDirectoryEntry (dirData : List Byte) (dirDataLength : Nat) (filename : List Byte) :
    Nat → Option Nat → Option Nat
  | 0, _ => none
  | fuel + 1, entry =>
    match mtlLoadNextDirectoryEntry dirData dirDataLength entry with
    | none => none
    | some entry =>
      if filename.length = entryNameLen dirData entry ∧ entryName dirData entry = filename then
        some entry
      else findDirectoryEntry dirData dirDataLength filename fuel (some entry)

/-- `mtl_resolve_inode_in_directory`. -/
def mtlResolveInodeInDirectory (db : Db) (dirInodeId : Nat) (filename : List Byte) :
    Option (Except MtlCode Nat) := do
  let (dirInode, dirData) ← mtlLoadInode db dirInodeId
  if dirInode.type ≠ .directory then some (.error .errorNotdirectory)
  else match findDirectoryEntry dirData dirInode.length filename (dirInode.length + 1) none with
    | some entry => some (.ok (entryInodeId dirData entry))
    | none => some (.error .errorNoentry)

/-- `mtl_append_inode_id_to_directory`. -/
def mtlAppendInodeIdToDirectory (db : Db) (dirInodeId : Nat) (filename : List Byte)
    (inodeId : Nat) : Option (Except MtlCode Db) := do
  let (dirInode, dirData) ← mtlLoadInode db dirInodeId
  if dirInode.type ≠ .directory then some (.error .errorNotdirectory)
  else match findDirectoryEntry dirData dirInode.length filename (dirInode.length + 1) none with
    | some _ => some (.error .errorExists)
    | none =>
      let newDataLength := dirInode.length + sizeofDirectoryEntryHead + filename.length
      some (.ok (mtlPutInode db dirInodeId { dirInode with length := newDataLength }
        (dirData.take dirInode.length ++ directoryEntryBytes inodeId filename)))

/-- The mode bits `S_IFDIR` and `S_IFREG`. -/
def sIfdir : Nat := 0o040000

@[inherit_doc sIfdir]
def sIfreg : Nat := 0o100000

/-- The `.` of a directory. -/
def dotName : List Byte := [byte 46]

/-- `mtl_create_root_directory`. -/
def mtlCreateRootDirectory (db : Db) (now : Int) : Option Db :=
  match mtlLoadInode db 0 with
  | some _ => some db
  | none => do
    let rootInode : Inode := ⟨.directory, 0, 0, 0, now, now, now, 0o755 ||| sIfdir⟩
    let db := mtlPutInode db 0 rootInode []
    let dot ← mtlAppendInodeIdToDirectory db 0 dotName 0
    let db := dot.toOption.getD db
    let dotDot ← mtlAppendInodeIdToDirectory db 0 (dotName ++ dotName) 0
    some (dotDot.toOption.getD db)

/-- `mtl_create_file_in_directory`, with the written `*file_inode_id`. -/
def mtlCreateFileInDirectory (db : Db) (dirInodeId : Nat) (filename : List Byte) (mode : Nat)
    (now : Int) : Option (Except MtlCode (Nat × Db)) := do
  let (fileInodeId, db) := mtlNextInodeId db
  match ← mtlAppendInodeIdToDirectory db dirInodeId filename fileInodeId with
  | .error code => some (.error code)
  | .ok db =>
    let fileInode : Inode := ⟨.file, 0, 0, 0, now, now, now, mode ||| sIfreg⟩
    some (.ok (fileInodeId, mtlPutInode db fileInodeId fileInode []))

end MetalFs
