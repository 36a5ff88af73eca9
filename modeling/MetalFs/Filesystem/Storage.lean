import MetalFs.Filesystem.Inode
import MetalFs.Lib.Segments

/-!
# The in-memory storage backend

`storage_in_memory.c`: the device is one buffer, and a file range is copied
extent by extent.  `none` stands for a failed `assert` or a read of an extent
that was not loaded.

The loops walk `_extents` with an index that only grows; here it is the list of
the extents from that index on.
-/

namespace MetalFs

/-- `MTL_MAX_EXTENTS`. -/
def mtlMaxExtents : Nat := 512

/-- `mtl_load_extent_list`, with the written extents and `*file_length`. -/
def mtlLoadExtentList (db : Db) (inodeId : Nat) : Except MtlCode (List FileExtent × Nat) :=
  match mtlLoadFile db inodeId with
  | none => .error .errorNoentry
  | some (inode, extents) =>
    if mtlMaxExtents < extents.length then .error .errorInvalidArgument
    else .ok (extents, inode.length)

/-- `NUM_BLOCKS`. -/
def numBlocks : Nat := 128 * 256

/-- `BLOCK_SIZE`. -/
def blockSize : Nat := 4096

/-- The buffer behind `_storage`. -/
abbrev Storage := Nat → Byte

/-- `memcpy` into the buffer. -/
def memcpyTo (storage : Storage) (dest : Nat) (source : List Byte) : Storage :=
  fun x => if dest ≤ x then (source[x - dest]?).getD (storage x) else storage x

/-- `memcpy` out of the buffer. -/
def memcpyFrom (storage : Storage) (source n : Nat) : List Byte :=
  (List.range n).map fun i => storage (source + i)

/-- The inner loop: step to the extent that contains `currentOffset`. -/
def seekExtent : List FileExtent → Nat → Nat → Option (FileExtent × List FileExtent × Nat)
  | [], _, _ => none
  | extent :: extents, currentExtentOffset, currentOffset =>
    if u64 (currentExtentOffset + extent.length * blockSize) ≤ currentOffset then
      seekExtent extents (u64 (currentExtentOffset + extent.length * blockSize)) currentOffset
    else some (extent, extents, currentExtentOffset)

/-- The position inside the extent and the number of bytes one round copies. -/
def roundRange (extent : FileExtent) (currentExtentOffset currentOffset length : Nat) : Nat × Nat :=
  let pos := u64 (currentOffset + 2 ^ 64 - currentExtentOffset)
  (pos, min (u64 (extent.length * blockSize + 2 ^ 64 - pos)) length)

/-- The outer loop of `mtl_storage_write`; every round copies a byte, which
bounds the number of rounds. -/
def storageWriteLoop : Nat → Storage → List FileExtent → Nat → Nat → List Byte → Option Storage
  | _, storage, _, _, _, [] => some storage
  | 0, _, _, _, _, _ :: _ => none
  | fuel + 1, storage, extents, currentExtentOffset, currentOffset, byte :: buffer =>
    match seekExtent extents currentExtentOffset currentOffset with
    | none => none
    | some (extent, extents, currentExtentOffset) =>
      let (pos, n) := roundRange extent currentExtentOffset currentOffset (buffer.length + 1)
      storageWriteLoop fuel
        (memcpyTo storage (u64 (extent.offset * blockSize + pos)) ((byte :: buffer).take n))
        (extent :: extents) currentExtentOffset (u64 (currentOffset + n))
        ((byte :: buffer).drop n)

/-- What `_extents` holds after the call of `mtl_load_extent_list`, whose code the
backend ignores: nothing was written to it when the call failed. -/
def loadedExtents (db : Db) (inodeId : Nat) : List FileExtent :=
  match mtlLoadExtentList db inodeId with
  | .error _ => []
  | .ok (extents, _) => extents

/-- `mtl_storage_write`. -/
def mtlStorageWrite (db : Db) (storage : Storage) (inodeId offset : Nat) (buffer : List Byte) :
    Option Storage :=
  if u64 (offset + buffer.length) < numBlocks * blockSize then
    storageWriteLoop buffer.length storage (loadedExtents db inodeId) 0 offset buffer
  else none

/-- The outer loop of `mtl_storage_read`. -/
def storageReadLoop : Nat → Storage → List FileExtent → Nat → Nat → Nat → Option (List Byte)
  | _, _, _, _, _, 0 => some []
  | 0, _, _, _, _, _ + 1 => none
  | fuel + 1, storage, extents, currentExtentOffset, currentOffset, length + 1 =>
    match seekExtent extents currentExtentOffset currentOffset with
    | none => none
    | some (extent, extents, currentExtentOffset) => do
      let (pos, n) := roundRange extent currentExtentOffset currentOffset (length + 1)
      let rest ← storageReadLoop fuel storage (extent :: extents) currentExtentOffset
        (u64 (currentOffset + n)) (length + 1 - n)
      some (memcpyFrom storage (u64 (extent.offset * blockSize + pos)) n ++ rest)

/-- `mtl_storage_read`. -/
def mtlStorageRead (db : Db) (storage : Storage) (inodeId offset length : Nat) :
    Option (List Byte) :=
  if u64 (offset + length) < numBlocks * blockSize then
    storageReadLoop length storage (loadedExtents db inodeId) 0 offset length
  else none

end MetalFs
