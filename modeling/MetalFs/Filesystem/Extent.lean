import MetalFs.Filesystem.Heap
import MetalFs.Lib.Tiling

/-!
# The extents database

The block allocator of `extent.c`.  Its state is the `extents` database, keyed by
block offset, and the `heap` database of the free ones.  LMDB orders the offsets
by the bytes of their little-endian encoding, and `mtl_free_extent` walks in this
order (`OrderedStore.next offsetBytes`).

A function returns `none` where the process does not go on: a failed `assert` or
a read through the pointer of a failed lookup.  A pointer that LMDB returned is
read as the value it had then; every call runs in a write transaction in which
the page it points to has not been written yet.
-/

namespace MetalFs

/-- `mtl_file_extent`. -/
structure FileExtent where
  offset : Nat
  length : Nat
deriving DecidableEq, Repr

/-- `mtl_extent_status`. -/
inductive ExtentStatus where
  | free
  | reserved
  | committed
deriving DecidableEq, Repr

/-- `mtl_extent`. -/
structure Extent where
  length : Nat
  status : ExtentStatus
  pqNode : HeapNodeId
deriving DecidableEq, Repr

/-- The two databases of the allocator. -/
structure Allocator where
  extents : OrderedStore Nat Extent
  heap : Heap
deriving DecidableEq

/-- The bytes a `uint64_t` key is stored under. -/
def offsetBytes (offset : Nat) : List Byte := leBytes 8 offset

/-- `mtl_initialize_extents`. -/
def mtlInitializeExtents (a : Allocator) (blocks : Nat) : Allocator :=
  match a.extents.get 0 with
  | some _ => a
  | none =>
    let (pqNode, heap) := mtlHeapInsert a.heap blocks 0
    { extents := a.extents.put 0 ⟨blocks, .free, pqNode⟩, heap }

/-! ## `mtl_reserve_extent` -/

/-- The locals of `mtl_reserve_extent` once it has an `extent` to hand out. -/
structure Candidate where
  extentOffset : Nat
  extent : Extent
  originalExtentLength : Nat
  appendExtentLength : Nat

/-- The extent that follows `lastExtent`, taken out of both databases when it is
free, and `lastExtent` itself. -/
def extendLastExtent (a : Allocator) (lastExtent : FileExtent) :
    Option (Option Candidate × Allocator) :=
  let nextExtentOffset := u64 (lastExtent.offset + lastExtent.length)
  match a.extents.get nextExtentOffset with
  | none => some (none, a)
  | some nextExtent =>
    if nextExtent.status = .free then
      match mtlHeapDelete a.heap nextExtent.pqNode with
      | (.success, heap) =>
        let extents := a.extents.del nextExtentOffset
        match extents.get lastExtent.offset with
        | none => none
        | some extent =>
          some (some ⟨lastExtent.offset, extent, extent.length, nextExtent.length⟩,
            { extents, heap })
      | _ => none
    else some (none, a)

/-- The free extent on top of the heap. -/
def popFreeExtent (a : Allocator) : Option (Option Candidate × Allocator) :=
  match mtlHeapExtractMax a.heap with
  | (.errorNoentry, _, heap) => some (none, { a with heap })
  | (_, none, _) => none
  | (_, some extentOffset, heap) =>
    match a.extents.get extentOffset with
    | none => none
    | some extent => some (some ⟨extentOffset, extent, 0, 0⟩, { a with heap })

/-- The second half of `mtl_reserve_extent`: cut off what is not needed, write
the extent back and report the newly allocated blocks.  The stored length is
only changed where something is cut off. -/
def splitCandidate (a : Allocator) (c : Candidate) (size : Nat) (commit : Bool) :
    Nat × Nat × Allocator :=
  let extentLength := u64 (c.extent.length + c.appendExtentLength)
  let totalNeededSize := u64 (c.originalExtentLength + size)
  let status := if commit then .committed else .reserved
  if totalNeededSize < extentLength then
    let remainingExtentOffset := u64 (c.extentOffset + totalNeededSize)
    let remainingExtentLength := extentLength - totalNeededSize
    let (pqNode, heap) := mtlHeapInsert a.heap remainingExtentLength remainingExtentOffset
    let extents := a.extents.put remainingExtentOffset ⟨remainingExtentLength, .free, pqNode⟩
    let extents := extents.put c.extentOffset ⟨totalNeededSize, status, c.extent.pqNode⟩
    (u64 (totalNeededSize + 2 ^ 64 - c.originalExtentLength), c.extentOffset, { extents, heap })
  else
    let extents := a.extents.put c.extentOffset { c.extent with status }
    (u64 (extentLength + 2 ^ 64 - c.originalExtentLength), c.extentOffset, { a with extents })

/-- The result for an extent to hand out, or for none. -/
def handOut (a : Allocator) (candidate : Option Candidate) (size : Nat) (commit : Bool) :
    Nat × Option Nat × Allocator :=
  match candidate with
  | none => (0, none, a)
  | some c =>
    let (length, offset, a) := splitCandidate a c size commit
    (length, some offset, a)

/-- `mtl_reserve_extent`: the number of newly allocated blocks, the written
`*offset` and the databases. -/
def mtlReserveExtent (a : Allocator) (size : Nat) (lastExtent : Option FileExtent)
    (commit : Bool) : Option (Nat × Option Nat × Allocator) := do
  let (candidate, a) ← match lastExtent with
    | none => some (none, a)
    | some lastExtent => extendLastExtent a lastExtent
  let (candidate, a) ← match candidate with
    | some c => some (some c, a)
    | none => popFreeExtent a
  some (handOut a candidate size commit)

/-! ## `mtl_free_extent` and `mtl_truncate_extent` -/

/-- The first block of `mtl_free_extent`, which merges the extent that follows
`offset`: the new `extent_size` and the databases. -/
def mergeFollowing (a : Allocator) (offset extentSize : Nat) : Nat × Allocator :=
  match a.extents.next offsetBytes offset with
  | none => (extentSize, a)
  | some (nextExtentOffset, nextExtent) =>
    if nextExtent.status = ExtentStatus.free then
      let (_, heap) := mtlHeapDelete a.heap nextExtent.pqNode
      (u64 (extentSize + nextExtent.length),
        { extents := a.extents.del nextExtentOffset, heap })
    else (extentSize, a)

/-- The second block of `mtl_free_extent`, which is to merge the previous extent
but steps its cursor with `MDB_NEXT` as well: `extent_offset`, `extent_size`,
`pq_node` and the databases. -/
def mergePrevious (a : Allocator) (offset extentSize : Nat) :
    Nat × Nat × HeapNodeId × Allocator :=
  match a.extents.next offsetBytes offset with
  | none => (offset, extentSize, invalidNode, a)
  | some (previousExtentOffset, previousExtent) =>
    if previousExtent.status = ExtentStatus.free then
      (previousExtentOffset, u64 (extentSize + previousExtent.length), previousExtent.pqNode,
        { a with extents := a.extents.del offset })
    else (offset, extentSize, invalidNode, a)

/-- The end of `mtl_free_extent`: the resulting extent is put into the heap and
into the extents. -/
def putFreeExtent (a : Allocator) (extentOffset extentSize : Nat) (pqNode : HeapNodeId) :
    Allocator :=
  let (pqNode, heap) :=
    if pqNode ≠ invalidNode then
      let (_, updatedNodeId, heap) := mtlHeapIncreaseKey a.heap pqNode extentSize
      (updatedNodeId.getD pqNode, heap)
    else mtlHeapInsert a.heap extentSize extentOffset
  { extents := a.extents.put extentOffset ⟨extentSize, .free, pqNode⟩, heap }

/-- `mtl_free_extent`. -/
def mtlFreeExtent (a : Allocator) (offset : Nat) : Option Allocator := do
  let extent ← a.extents.get offset
  let (extentSize, a) := mergeFollowing a offset extent.length
  let (extentOffset, extentSize, pqNode, a) := mergePrevious a offset extentSize
  some (putFreeExtent a extentOffset extentSize pqNode)

/-- `mtl_truncate_extent`. -/
def mtlTruncateExtent (a : Allocator) (offset len : Nat) : Option Allocator :=
  if len = 0 then mtlFreeExtent a offset
  else do
    let extent ← a.extents.get offset
    let extents := a.extents.put offset { extent with status := .committed, length := len }
    if len < extent.length then
      -- Temporarily add an extent for the remaining space
      let extents := extents.put (u64 (offset + len))
        ⟨extent.length - len, .reserved, invalidNode⟩
      mtlFreeExtent { a with extents } (u64 (offset + len))
    else some { a with extents }

end MetalFs
