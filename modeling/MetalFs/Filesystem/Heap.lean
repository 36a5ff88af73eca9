import MetalFs.Lib.OrderedStore

/-!
# The heap database

`heap.c` keeps a priority queue of free extents in an LMDB database.  A node is
stored under the 16 bytes of its `mtl_heap_node_id` and the maximum is the last
entry in LMDB's key order, which compares the bytes of the little-endian `k` and
then those of `v`.

The functions of `heap.c` return a code; the out parameters and the changed
database are returned beside it.
-/

namespace MetalFs

/-- The return codes of `metal.h`. -/
inductive MtlCode where
  | success
  | complete
  | errorNoentry
  | errorExists
  | errorNotdirectory
  | errorInvalidArgument
  | errorNotempty
deriving DecidableEq, Repr

/-- The value of a `uint64_t` after an unsigned operation. -/
def u64 (n : Nat) : Nat := n % 2 ^ 64

theorem u64_of_lt {n : Nat} (small : n < 2 ^ 64) : u64 n = n := Nat.mod_eq_of_lt small

theorem u64_lt (n : Nat) : u64 n < 2 ^ 64 := Nat.mod_lt _ (by decide)

/-- `mtl_heap_node_id`. -/
structure HeapNodeId where
  k : Nat
  v : Nat
deriving DecidableEq, Repr

/-- `INVALID_NODE`. -/
def invalidNode : HeapNodeId := ⟨0, 0⟩

/-- The 16 bytes a node id is stored under. -/
def HeapNodeId.bytes (id : HeapNodeId) : List Byte := leBytes 8 id.k ++ leBytes 8 id.v

/-- The `heap` database. -/
abbrev Heap := OrderedStore HeapNodeId Nat

/-- `mtl_heap_insert`, with the written `*node_id`. -/
def mtlHeapInsert (heap : Heap) (key value : Nat) : HeapNodeId × Heap :=
  let id : HeapNodeId := ⟨key, value⟩
  (id, heap.put id value)

/-- `mtl_heap_delete`. -/
def mtlHeapDelete (heap : Heap) (nodeId : HeapNodeId) : MtlCode × Heap :=
  match heap.get nodeId with
  | none => (.errorInvalidArgument, heap)
  | some _ => (.success, heap.del nodeId)

/-- `mtl_heap_extract_max`, with the written `*max_value`. -/
def mtlHeapExtractMax (heap : Heap) : MtlCode × Option Nat × Heap :=
  match heap.last HeapNodeId.bytes with
  | none => (.errorNoentry, none, heap)
  | some (key, value) =>
    let (res, heap) := mtlHeapDelete heap key
    (res, some value, heap)

/-- `mtl_heap_increase_key`, with the written `*updated_node_id`.  The node is
inserted again with value `0`. -/
def mtlHeapIncreaseKey (heap : Heap) (nodeId : HeapNodeId) (key : Nat) :
    MtlCode × Option HeapNodeId × Heap :=
  match mtlHeapDelete heap nodeId with
  | (.success, heap) =>
    let (updatedNodeId, heap) := mtlHeapInsert heap key 0
    (.success, some updatedNodeId, heap)
  | (res, heap) => (res, none, heap)

/-! ## What a stored node gives -/

theorem mtlHeapDelete_of_get {heap : Heap} {nodeId : HeapNodeId} {value : Nat}
    (found : heap.get nodeId = some value) :
    mtlHeapDelete heap nodeId = (.success, heap.del nodeId) := by
  simp only [mtlHeapDelete, found]

/-- Extracting from a heap either finds it empty or removes one stored node. -/
theorem mtlHeapExtractMax_cases (heap : Heap) :
    (mtlHeapExtractMax heap = (.errorNoentry, none, heap) ∧ ∀ id, heap.get id = none) ∨
      ∃ id value, heap.get id = some value ∧
        mtlHeapExtractMax heap = (.success, some value, heap.del id) := by
  cases greatest : heap.last HeapNodeId.bytes with
  | none =>
    refine Or.inl ⟨?_, OrderedStore.get_eq_none_of_last greatest⟩
    simp only [mtlHeapExtractMax, greatest]
  | some entry =>
    obtain ⟨id, value⟩ := entry
    have found := OrderedStore.get_of_last greatest
    refine Or.inr ⟨id, value, found, ?_⟩
    simp only [mtlHeapExtractMax, greatest, mtlHeapDelete_of_get found]

end MetalFs
