import MetalFs.Filesystem.FileRuns

/-!
# Files are isolated

As long as nothing is freed, the free blocks are the tail of the device
(`TailFree`): every reservation takes its blocks from the front of the one free
extent.  A run of `mtl_create`, `mtl_write` and non-shrinking `mtl_truncate` keeps
all extents of all files disjoint and recorded, and an operation on one file does
not change what is read from another.

The exception is a file whose last extent ends where the free blocks begin and
that grows by exactly all of them: `mtl_reserve_extent` then leaves the stored
length of the extent as it was.  `KeepsTail` excludes it.
-/

namespace MetalFs

open Segments OrderedStore

/-! ## The one free extent -/

/-- Every free extent ends where the device ends. -/
def TailFree (a : Allocator) (N : Nat) : Prop :=
  ∀ {o e}, a.extents.get o = some e → e.status = .free → o + e.length = N

variable {a a' : Allocator} {N : Nat}

theorem eq_of_ends {o o' : Nat} {e e' : Extent} (inv : a.Inv N)
    (found : a.extents.get o = some e) (found' : a.extents.get o' = some e')
    (ends : o + e.length = N) (ends' : o' + e'.length = N) : o = o' := by
  have low := inv.pos found
  have low' := inv.pos found'
  exact inv.tiling.eq_of_mem (pieces_of_get found) (pieces_of_get found') (x := N - 1)
    (by omega) (by omega) (by omega) (by omega)

theorem get_end_eq_none (inv : a.Inv N) : a.extents.get N = none := by
  cases found : a.extents.get N with
  | none => rfl
  | some e =>
    have low := inv.pos found
    have high := inv.le found
    omega

theorem growOk_zero (fuel : Nat) (a : Allocator) (last : FileExtent) : GrowOk fuel a last 0 := by
  cases fuel with
  | zero => trivial
  | succ fuel => exact fun positive => absurd positive (lt_irrefl _)

/-- Without free blocks every reservation fails at once. -/
theorem growOk_of_no_free (inv : a.Inv N) {fuel need : Nat} {last : FileExtent}
    (small : N + need < 2 ^ 64)
    (none : ∀ {o e}, a.extents.get o = some e → e.status ≠ .free)
    (allocated : ∀ l ∈ lastExtentArg last, a.Allocated l.offset l.length) :
    GrowOk fuel a last need := by
  cases fuel with
  | zero => trivial
  | succ fuel =>
    intro positive
    have ok : ReserveOk a need (lastExtentArg last) :=
      fun _ _ next following free => absurd free (none following)
    refine ⟨ok, ?_⟩
    intro r returned offset isOffset
    have noWrap : ∀ l ∈ lastExtentArg last, l.length + need < 2 ^ 64 := by
      intro l isLast
      have short := inv.length_le (allocated l isLast)
      omega
    rcases mtlReserveExtent_spec inv (by omega) positive (by omega) noWrap allocated ok with
      ⟨failed, _⟩ | ⟨n, offset', a', reserved, spec⟩
    · rw [failed] at returned
      cases returned
      cases isOffset
    · rcases spec.place with ⟨⟨e, found, free⟩, _⟩ | ⟨l, isLast, _⟩
      · exact absurd free (none found)
      · have noBlocks := freeBlocks_eq_zero (a := a) fun _ _ found => none found
        have := spec.freeBlocks
        have := spec.positive
        omega

/-- With one free extent at the end of the device, a file that is not grown to its very
end is grown in at most one round that succeeds. -/
theorem growOk_of_tailFree (inv : a.Inv N) (tail : TailFree a N) {fuel need : Nat}
    {last : FileExtent} (small : N + need < 2 ^ 64)
    (allocated : ∀ l ∈ lastExtentArg last, a.Allocated l.offset l.length)
    (fits : ∀ l ∈ lastExtentArg last, ∀ next ∈ a.extents.get (l.offset + l.length),
      next.status = .free → need < next.length) :
    GrowOk fuel a last need := by
  cases fuel with
  | zero => trivial
  | succ fuel =>
    intro positive
    have ok : ReserveOk a need (lastExtentArg last) := by
      intro l isLast next following free
      have less := fits l isLast next following free
      have inside := inv.le following
      have noWrap : u64 (l.length + need) = l.length + need := u64_of_lt (by omega)
      rw [noWrap]
      exact ⟨by omega, by omega⟩
    refine ⟨ok, ?_⟩
    intro r returned offset isOffset
    have noWrap : ∀ l ∈ lastExtentArg last, l.length + need < 2 ^ 64 := by
      intro l isLast
      have short := inv.length_le (allocated l isLast)
      omega
    rcases mtlReserveExtent_spec inv (by omega) positive (by omega) noWrap allocated ok with
      ⟨failed, _⟩ | ⟨n, offset', a', reserved, spec⟩
    · rw [failed] at returned
      cases returned
      cases isOffset
    · rw [reserved] at returned
      cases returned
      cases isOffset
      rcases Nat.lt_or_ge n need with less | enough
      · -- The whole free extent was handed out, and nothing is left behind it.
        obtain ⟨e, found, free, rfl, committed⟩ := spec.whole less
        have ends := tail found free
        have notIn : ∀ l ∈ lastExtentArg last, l.offset ≠ offset := by
          rintro l isLast rfl
          obtain ⟨x, stored, notFree, _⟩ := allocated l isLast
          rw [found] at stored
          cases stored
          exact notFree free
        have grown : growLastExtent last ⟨offset, e.length⟩ = ⟨offset, e.length⟩ := by
          unfold growLastExtent
          refine if_neg ?_
          rintro ⟨nonzero, same⟩
          exact notIn last (by simp [lastExtentArg, nonzero]) same
        rw [grown]
        refine growOk_of_no_free spec.inv (by omega) ?_ ?_
        · intro o x stored isFree
          obtain ⟨o', e', found', free', le, same⟩ := spec.free stored isFree
          have tail' := tail found' free'
          obtain ⟨y, stored', status, length⟩ := committed
          have here := eq_of_ends spec.inv stored stored' (by omega) (by omega)
          subst here
          rw [stored] at stored'
          cases stored'
          rw [isFree] at status
          cases status
        · intro l isLast
          have positiveLength := inv.pos found
          simp only [lastExtentArg, ne_eq, Nat.ne_of_gt positiveLength, not_false_eq_true,
            if_true, Option.mem_def, Option.some.injEq] at isLast
          subst isLast
          exact committed.allocated
      · have done : need - n = 0 := by omega
        rw [done]
        exact growOk_zero _ _ _

/-- The allocator after `last` was grown in place over the last free blocks has no
free block to hand out. -/
theorem mtlReserveExtent_after_fill (inv : a.Inv N) (tail : TailFree a N) (bound : N < 2 ^ 64)
    {last : FileExtent} {next e : Extent}
    (following : a.extents.get (last.offset + last.length) = some next)
    (free : next.status = .free) (size : Nat) :
    mtlReserveExtent ⟨(a.extents.del (last.offset + last.length)).put last.offset e,
        a.heap.del ⟨next.length, last.offset + last.length⟩⟩ size
      (lastExtentArg ⟨last.offset, last.length + next.length⟩) true =
        some (0, none, ⟨(a.extents.del (last.offset + last.length)).put last.offset e,
          a.heap.del ⟨next.length, last.offset + last.length⟩⟩) := by
  have ends := tail following free
  have positive := inv.pos following
  have nonzero : last.length + next.length ≠ 0 := by omega
  have endEq : u64 (last.offset + (last.length + next.length)) = N := by
    rw [← Nat.add_assoc, ends]
    exact u64_of_lt bound
  have other : N ≠ last.offset := by omega
  have apart : N ≠ last.offset + last.length := by omega
  have absent : OrderedStore.get ((a.extents.del (last.offset + last.length)).put last.offset e) N =
      none := by
    rw [get_put_of_ne other, get_del_of_ne apart]
    exact get_end_eq_none inv
  have empty : mtlHeapExtractMax (a.heap.del ⟨next.length, last.offset + last.length⟩) =
      (.errorNoentry, none, a.heap.del ⟨next.length, last.offset + last.length⟩) := by
    rcases mtlHeapExtractMax_cases
        (a.heap.del ⟨next.length, last.offset + last.length⟩) with ⟨none, _⟩ | ⟨id, value, inHeap, _⟩
    · exact none
    · rw [get_del] at inHeap
      split at inHeap
      · cases inHeap
      · rename_i kept
        obtain ⟨x, stored, isFree, rfl⟩ := inv.only inHeap
        have same := eq_of_ends inv stored following (tail stored isFree) (tail following free)
        subst same
        rw [stored] at following
        cases following
        exact absurd rfl kept
  simp only [mtlReserveExtent, lastExtentArg, ne_eq, nonzero, not_false_eq_true, if_true,
    extendLastExtent, endEq, absent, Option.bind_eq_bind, Option.bind_some, popFreeExtent, empty,
    handOut]

/-- Growing a file in place by more than all free blocks fails the assertion. -/
theorem expandLoop_eq_none_of_fill {db : Db} {metadata : StorageMetadata} {id bytes fuel : Nat}
    {inode : Inode} {l : List FileExtent} {last : FileExtent} {next : Extent}
    (inv : db.Inv metadata) (tail : TailFree db.allocator metadata.numBlocks)
    (file : db.FileAt id inode l) (isLast : l.getLast? = some last)
    (small : metadata.numBlocks + blocksFor metadata.blockSize bytes < 2 ^ 64)
    (following : db.allocator.extents.get (last.offset + last.length) = some next)
    (free : next.status = .free)
    (exceeds : next.length < blocksFor metadata.blockSize bytes - blockCount l) :
    expandLoop metadata id bytes (fuel + 1) db (blockCount l) (l.getLastD ⟨0, 0⟩) = none := by
  have arg := lastExtentArg_getLastD (l := l) fun e member => inv.pos file member
  have member : last ∈ l := List.mem_of_getLast? isLast
  have lastD : l.getLastD ⟨0, 0⟩ = last := by
    rw [List.getLastD_eq_getLast?, isLast, Option.getD_some]
  rw [lastD, isLast] at arg
  rw [lastD]
  have positive := inv.pos file member
  have positive' := inv.allocator.pos following
  have inside := inv.allocator.le following
  have missing : blockCount l < blocksFor metadata.blockSize bytes := by omega
  have notYet : blockCount l + next.length < blocksFor metadata.blockSize bytes := by omega
  have currentEq : u64 (blockCount l + next.length) = blockCount l + next.length :=
    u64_of_lt (by omega)
  have lengthEq : u64 (last.length + next.length) = last.length + next.length :=
    u64_of_lt (by omega)
  obtain ⟨e, _, filled⟩ := mtlReserveExtent_fill inv.allocator
    (show metadata.numBlocks + (blocksFor metadata.blockSize bytes - blockCount l) < 2 ^ 64 by omega)
    (inv.committed file last member).allocated following free (by omega)
  have grown : growLastExtent last ⟨last.offset, next.length⟩ =
      ⟨last.offset, last.length + next.length⟩ := by
    rw [growLastExtent, if_pos ⟨by omega, rfl⟩, lengthEq]
  have nonempty : l ≠ [] := List.ne_nil_of_mem member
  have assigned : ∀ a' newLength, assignExtent { db with allocator := a' } id last
      ⟨last.offset, next.length⟩ newLength = some (mtlPutInode { db with allocator := a' } id
        { inode with length := newLength }
        (extentBytes (l.dropLast ++ [⟨last.offset, last.length + next.length⟩]))) := by
    intro a' newLength
    have loaded : mtlLoadFile { db with allocator := a' } id = some (inode, l) := file.1
    rw [assignExtent, if_pos ⟨by omega, rfl⟩, grown]
    simp only [mtlExtendLastExtentInFile, loaded, Option.bind_eq_bind, Option.bind_some,
      if_neg nonempty]
  simp only [expandLoop, if_pos missing, arg, filled, Option.bind_eq_bind, Option.bind_some,
    currentEq, if_neg (Nat.ne_of_gt positive'), assigned, grown]
  cases fuel with
  | zero => simp only [expandLoop, if_pos notYet]
  | succ fuel =>
    have failed := mtlReserveExtent_after_fill inv.allocator tail (by omega) (e := e)
      following free (blocksFor metadata.blockSize bytes - (blockCount l + next.length))
    simp only [expandLoop, if_pos notYet, mtlPutInode, failed, Option.bind_eq_bind,
      Option.bind_some, if_true]

/-! ## Growing operations -/

/-- All extents of all files are pairwise disjoint, lie on the device and are recorded
as committed extents of the same offset and length. -/
structure Isolated (db : Db) : Prop where
  disjoint : ∀ {id inode l}, db.FileAt id inode l → (blockSegments l).Pairwise Segment.Disjoint
  disjoint_of_ne : ∀ {id id' inode inode' l l'}, db.FileAt id inode l → db.FileAt id' inode' l' →
    id ≠ id' → ∀ e ∈ l, ∀ e' ∈ l', e.segment.Disjoint e'.segment
  inside : ∀ {id inode l}, db.FileAt id inode l → ∀ e ∈ l, e.Inside
  recorded : ∀ {id inode l}, db.FileAt id inode l →
    ∀ e ∈ l, db.allocator.Committed e.offset e.length

theorem Db.Inv.isolated {db : Db} (inv : db.Inv mtlStorageGetMetadata) : Isolated db :=
  ⟨inv.disjoint, fun file file' different _ member _ member' =>
    inv.disjoint_of_ne file file' different member member', inv.inside, inv.committed⟩

/-- The inode is that of a file. -/
def IsFile (db : Db) (id : Nat) : Prop := ∃ r ∈ mtlLoadFile db id, r.1.type = .file

/-- The operation creates a file, writes to one, or truncates one to at least its
length. -/
def FsOp.Grows (fs : Fs) : FsOp → Prop
  | create _ _ _ => True
  | write id _ _ => IsFile fs.db id
  | truncate id offset => IsFile fs.db id ∧ offset < 2 ^ 64 ∧
      ∀ r ∈ mtlLoadFile fs.db id, r.1.length ≤ offset
  | read _ _ _ => False

/-- Growing the file to `bytes` bytes behind its last extent does not end with the last
block of the device. -/
def KeepsTail (db : Db) (id bytes : Nat) : Prop :=
  ∀ r ∈ mtlLoadFile db id, ∀ last ∈ r.2.getLast?, 0 < missingBlocks r.2 bytes →
    last.offset + last.length + missingBlocks r.2 bytes ≠ numBlocks

/-- The operation does not grow a file in place to the end of the device. -/
def FsOp.KeepsTail (fs : Fs) : FsOp → Prop
  | write id buffer offset => MetalFs.KeepsTail fs.db id (u64 (offset + buffer.length))
  | truncate id offset => MetalFs.KeepsTail fs.db id offset
  | _ => True

/-- The file an operation changes. -/
def FsOp.target : FsOp → Option Nat
  | write id _ _ => some id
  | truncate id _ => some id
  | _ => none

/-- A file that is grown gets its blocks from the front of the free ones. -/
theorem mtlExpandInode_of_tailFree {db db' : Db} {id bytes : Nat} {inode : Inode}
    {l : List FileExtent} (inv : db.Inv mtlStorageGetMetadata)
    (tail : TailFree db.allocator numBlocks) (file : db.FileAt id inode l)
    (small : bytes < 2 ^ 64) (keeps : KeepsTail db id bytes)
    (returned : mtlExpandInode mtlStorageGetMetadata db id l bytes = some db') :
    ∃ inode' l', Expanded mtlStorageGetMetadata id bytes db inode l db' inode' l' := by
  have arg := lastExtentArg_getLastD (l := l) fun e member => inv.pos file member
  have blocks : blocksFor blockSize bytes ≤ 2 ^ 52 := by
    rw [blocksFor_le_iff (by decide)]
    simp only [blockSize]
    omega
  have noWrap : numBlocks + blocksFor blockSize bytes < 2 ^ 64 := by
    simp only [numBlocks]
    omega
  have missing : missingBlocks l bytes = blocksFor blockSize bytes - blockCount l := rfl
  have ok : GrowOk (missingBlocks l bytes) db.allocator (l.getLastD ⟨0, 0⟩)
      (missingBlocks l bytes) := by
    rcases Nat.eq_zero_or_pos (missingBlocks l bytes) with none | positive
    · rw [none]
      trivial
    · refine growOk_of_tailFree inv.allocator tail
        (show numBlocks + missingBlocks l bytes < 2 ^ 64 by omega) ?_ ?_
      · rw [arg]
        exact fun last isLast => (inv.committed file last (List.mem_of_getLast? isLast)).allocated
      · rw [arg]
        intro last isLast next following free
        have ends := tail following free
        have other := keeps _ file.1 last isLast positive
        simp only at other
        by_contra tooMany
        -- Growing by more than the free extent fails, which the call did not.
        rw [mtlExpandInode_eq inv file,
          show missingBlocks l bytes = missingBlocks l bytes - 1 + 1 by omega,
          expandLoop_eq_none_of_fill inv tail file isLast noWrap following free (by
            rw [← show missingBlocks l bytes =
              blocksFor mtlStorageGetMetadata.blockSize bytes - blockCount l from rfl]
            omega)] at returned
        cases returned
  rcases mtlExpandInode_cases inv file small ok with
    ⟨failed, _⟩ | ⟨db'', inode', l', expandedTo, expanded⟩
  · rw [failed] at returned
    cases returned
  · rw [expandedTo] at returned
    cases returned
    exact ⟨inode', l', expanded⟩

theorem Expanded.tailFree {db db' : Db} {id bytes : Nat} {inode inode' : Inode}
    {l l' : List FileExtent}
    (expanded : Expanded mtlStorageGetMetadata id bytes db inode l db' inode' l')
    (tail : TailFree db.allocator numBlocks) : TailFree db'.allocator numBlocks := by
  intro o e found free
  obtain ⟨o', e', found', free', _, same⟩ := expanded.free found free
  rw [same]
  exact tail found' free'

/-- What a growing operation on a file did: it expanded that file, and only device bytes
of its extents were written. -/
structure Grown (id : Nat) (fs fs' : Fs) (l' : List FileExtent) : Prop where
  inv : fs'.db.Inv mtlStorageGetMetadata
  tail : TailFree fs'.db.allocator numBlocks
  frame : Db.Frame id fs.db fs'.db
  file : ∃ inode', fs'.db.FileAt id inode' l'
  outside : ∀ x, (∀ e ∈ l', ¬ e.byteSegment.Contains x) → fs'.storage x = fs.storage x

theorem step_grown {fs fs' : Fs} {op : FsOp} {id : Nat} (inv : fs.db.Inv mtlStorageGetMetadata)
    (tail : TailFree fs.db.allocator numBlocks) (target : op.target = some id)
    (grows : op.Grows fs) (keeps : op.KeepsTail fs) (returned : op.step fs = some fs') :
    ∃ l', Grown id fs fs' l' := by
  cases op with
  | create filename mode now => cases target
  | read id size offset => cases target
  | write id' buffer offset =>
    cases target
    obtain ⟨⟨inode, l⟩, loaded, isFile⟩ := grows
    have file : fs.db.FileAt id inode l := ⟨loaded, isFile⟩
    simp only [FsOp.step, mtlWrite_eq file] at returned
    obtain ⟨db', expandedTo, rest⟩ := Option.bind_eq_some_iff.mp returned
    obtain ⟨storage', written, rfl⟩ := Option.map_eq_some_iff.mp rest
    obtain ⟨inode', l', expanded⟩ :=
      mtlExpandInode_of_tailFree inv tail file (u64_lt _) keeps expandedTo
    exact ⟨l', expanded.inv, expanded.tailFree tail, expanded.frame, ⟨inode', expanded.file⟩,
      fun x outside => mtlStorageWrite_frame expanded.file.1 (expanded.inv.inside expanded.file)
        written outside⟩
  | truncate id' offset =>
    cases target
    obtain ⟨⟨⟨inode, l⟩, loaded, isFile⟩, small, long⟩ := grows
    have file : fs.db.FileAt id inode l := ⟨loaded, isFile⟩
    simp only [FsOp.step, mtlTruncate_grow file (long _ loaded)] at returned
    obtain ⟨db', expandedTo, rfl⟩ := Option.map_eq_some_iff.mp returned
    obtain ⟨inode', l', expanded⟩ :=
      mtlExpandInode_of_tailFree inv tail file small keeps expandedTo
    exact ⟨l', expanded.inv, expanded.tailFree tail, expanded.frame, ⟨inode', expanded.file⟩,
      fun _ _ => rfl⟩

/-- A growing operation on a file leaves every read of another file as it was. -/
theorem Grown.read_eq {fs fs' : Fs} {id other : Nat} {l' : List FileExtent}
    (grown : Grown id fs fs' l') (different : other ≠ id) {inode : Inode} {l : List FileExtent}
    (file : fs.db.FileAt other inode l) (size offset : Nat) :
    mtlRead fs' other size offset = mtlRead fs other size offset := by
  have file' : fs'.db.FileAt other inode l := (grown.frame.fileAt different).mpr file
  obtain ⟨inode', target⟩ := grown.file
  have same : ∀ e ∈ l, ∀ x, e.byteSegment.Contains x → fs'.storage x = fs.storage x := by
    intro e member x contains
    refine grown.outside x ?_
    intro e' member' contains'
    exact ((grown.inv.disjoint_of_ne file' target different member member').scale blockSize) x
      contains contains'
  simp only [mtlRead, file.1, file'.1, Option.bind_eq_bind, Option.bind_some,
    mtlStorageRead_congr file.1 file'.1 (grown.inv.inside file') same]

/-- One growing operation keeps the invariant and the free blocks at the end. -/
theorem step_isolated {fs fs' : Fs} {op : FsOp}
    (inv : fs.db.Inv mtlStorageGetMetadata ∧ TailFree fs.db.allocator numBlocks)
    (allowed : op.Grows fs ∧ op.KeepsTail fs) (returned : op.step fs = some fs') :
    fs'.db.Inv mtlStorageGetMetadata ∧ TailFree fs'.db.allocator numBlocks := by
  cases target : op.target with
  | some id =>
    obtain ⟨l', grown⟩ := step_grown inv.1 inv.2 target allowed.1 allowed.2 returned
    exact ⟨grown.inv, grown.tail⟩
  | none =>
    cases op with
    | write id buffer offset => cases target
    | truncate id offset => cases target
    | read id size offset => exact allowed.1.elim
    | create filename mode now =>
      obtain ⟨result, created, rfl⟩ := Option.map_eq_some_iff.mp returned
      cases result with
      | error code => exact inv
      | ok value =>
        obtain ⟨id, db'⟩ := value
        have spec := mtlCreate_spec inv.1 created
        refine ⟨spec.inv, ?_⟩
        intro o e found free
        refine inv.2 ?_ free
        rw [← spec.allocator]
        exact found

theorem tailFree_fresh (N : Nat) : TailFree (freshAllocator N) N := by
  intro o e found free
  have state : freshAllocator N = ⟨(∅ : OrderedStore Nat Extent).put 0 ⟨N, .free, ⟨N, 0⟩⟩,
      (∅ : Heap).put ⟨N, 0⟩ 0⟩ := rfl
  rw [state, get_put] at found
  split at found
  · rename_i here
    cases found
    rw [here]
    exact Nat.zero_add N
  · cases found

/-- In every state that growing operations reach without growing a file in place to the
end of the device, all extents of all files are disjoint, on the device and recorded,
and one more such operation on a file leaves every read of any other file unchanged. -/
theorem growth_run_isolated {now : Int} {storage : Storage} {db : Db}
    (fresh : mtlInitialize emptyDb mtlStorageGetMetadata now = some db) {ops : List FsOp} {fs : Fs}
    (steps : Runs.Steps FsOp.step (fun fs op => op.Grows fs ∧ op.KeepsTail fs) ⟨db, storage⟩ ops)
    (finished : Runs.run FsOp.step ⟨db, storage⟩ ops = some fs) :
    Isolated fs.db ∧
      ∀ {op : FsOp} {id fs'}, op.target = some id → op.Grows fs → op.KeepsTail fs →
        op.step fs = some fs' → ∀ {other inode l}, other ≠ id → fs.db.FileAt other inode l →
          ∀ size offset, mtlRead fs' other size offset = mtlRead fs other size offset := by
  obtain ⟨db', returned, inv, _, allocator⟩ := mtlInitialize_spec mtlStorageGetMetadata
    (by decide) now
  rw [fresh] at returned
  cases returned
  have tail : TailFree db.allocator numBlocks := by
    rw [allocator]
    exact tailFree_fresh _
  have reached := Runs.inv_of_run
    (I := fun fs => fs.db.Inv mtlStorageGetMetadata ∧ TailFree fs.db.allocator numBlocks)
    step_isolated ⟨inv, tail⟩ steps finished
  refine ⟨reached.1.isolated, ?_⟩
  intro op id fs' target grows keeps stepped other inode l different file size offset
  obtain ⟨l', grown⟩ := step_grown reached.1 reached.2 target grows keeps stepped
  exact grown.read_eq different file size offset

/-! ## The conditions can be evaluated -/

instance (db : Db) (id : Nat) : Decidable (IsFile db id) :=
  inferInstanceAs (Decidable (∃ r ∈ mtlLoadFile db id, _))

instance (db : Db) (id bytes : Nat) : Decidable (KeepsTail db id bytes) :=
  inferInstanceAs (Decidable (∀ r ∈ mtlLoadFile db id, ∀ last ∈ r.2.getLast?, _ → _))

instance (fs : Fs) (op : FsOp) : Decidable (op.Grows fs) :=
  match op with
  | .create _ _ _ => inferInstanceAs (Decidable True)
  | .write id _ _ => inferInstanceAs (Decidable (IsFile fs.db id))
  | .truncate id offset => inferInstanceAs (Decidable (IsFile fs.db id ∧ offset < 2 ^ 64 ∧
      ∀ r ∈ mtlLoadFile fs.db id, r.1.length ≤ offset))
  | .read _ _ _ => inferInstanceAs (Decidable False)

instance (fs : Fs) (op : FsOp) : Decidable (op.KeepsTail fs) :=
  match op with
  | .create _ _ _ => inferInstanceAs (Decidable True)
  | .write _ _ _ => inferInstanceAs (Decidable (KeepsTail _ _ _))
  | .truncate _ _ => inferInstanceAs (Decidable (KeepsTail _ _ _))
  | .read _ _ _ => inferInstanceAs (Decidable True)

/-- The databases of a fresh store. -/
def freshDb : Db := (mtlInitialize emptyDb mtlStorageGetMetadata 0).get (by decide +kernel)

/-- Two files that grow in turn, the second one also in place. -/
def interleavedRun : List FsOp :=
  [.create [slash, byte 97] 0o644 0, .create [slash, byte 98] 0o644 0, .write 1 [byte 1] 0,
    .write 2 [byte 2, byte 3] 0, .write 2 [byte 4] 9000, .write 1 [byte 5] 5000,
    .truncate 1 (100 * 4096)]

theorem growth_run_isolated_interleavedRun :
    ∃ fs, Runs.run FsOp.step ⟨freshDb, fun _ => byte 0⟩ interleavedRun = some fs ∧ Isolated fs.db :=
  ⟨(Runs.run FsOp.step ⟨freshDb, fun _ => byte 0⟩ interleavedRun).get (by decide +kernel),
    (Option.some_get _).symm,
    (growth_run_isolated (show mtlInitialize emptyDb mtlStorageGetMetadata 0 = some freshDb from
      (Option.some_get _).symm) (by decide +kernel) (Option.some_get _).symm).1⟩

/-- One block for each of two files, and then all other blocks for the second one. -/
def fillRun : List FsOp :=
  [.create [slash, byte 97] 0o644 0, .create [slash, byte 98] 0o644 0, .write 1 [byte 1] 0,
    .write 2 [byte 1] 0, .truncate 2 (32767 * 4096)]

/-- The second file has 32767 blocks in one extent, of which one is recorded. -/
theorem fillRun_not_isolated :
    Runs.Steps FsOp.step (fun fs op => op.Grows fs) ⟨freshDb, fun _ => byte 0⟩ fillRun ∧
    ∃ fs, Runs.run FsOp.step ⟨freshDb, fun _ => byte 0⟩ fillRun = some fs ∧ ¬ Isolated fs.db := by
  refine ⟨by decide +kernel, ?_⟩
  have observed : (Runs.run FsOp.step ⟨freshDb, fun _ => byte 0⟩ fillRun).map (fun fs =>
      ((mtlLoadFile fs.db 2).map fun r => (r.1.type, r.2),
        (fs.db.allocator.extents.get 1).map Extent.length)) =
      some (some (.file, [⟨1, 32767⟩]), some 1) := by decide +kernel
  obtain ⟨fs, finished, facts⟩ := Option.map_eq_some_iff.mp observed
  obtain ⟨file, recorded⟩ := Prod.mk.inj facts
  obtain ⟨⟨inode, l⟩, loaded, contents⟩ := Option.map_eq_some_iff.mp file
  obtain ⟨isFile, rfl⟩ := Prod.mk.inj contents
  refine ⟨fs, finished, fun isolated => ?_⟩
  obtain ⟨x, stored, _, length⟩ :=
    isolated.recorded ⟨loaded, isFile⟩ ⟨1, 32767⟩ List.mem_cons_self
  simp only [stored, Option.map_some, Option.some.injEq] at recorded length
  omega

end MetalFs
