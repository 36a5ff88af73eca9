import MetalFs.Filesystem.ExtentRuns
import MetalFs.Filesystem.MetalGrow

/-!
# Shrinking a file

`mtl_truncate` of a file that gets shorter walks over its extents: those before
the new end are kept, the one that contains it is cut or dropped, those behind it
are freed.  `shrinkCalls` lists the allocator calls of this walk, and
`truncateLoop_spec` says what is left of the file when all of them keep the
allocator's invariant.
-/

namespace MetalFs

open Segments

/-- The allocator calls of the loop in `mtl_truncate`. -/
def shrinkCalls (blockSize offset : Nat) : List FileExtent → Nat → List AllocOp
  | [], _ => []
  | e :: l, previousExtentEnd =>
    let extentEnd := u64 (previousExtentEnd + e.length * blockSize)
    (if offset < previousExtentEnd then [.free e.offset]
      else if offset < extentEnd then
        if blocksFor blockSize (offset - previousExtentEnd) ≠ 0 then
          [.truncate e.offset (blocksFor blockSize (offset - previousExtentEnd))]
        else [.free e.offset]
      else []) ++ shrinkCalls blockSize offset l extentEnd

/-- Every call in a list of allocator calls keeps the allocator's invariant. -/
def CallsOk (a : Allocator) (calls : List AllocOp) : Prop :=
  Runs.Steps AllocOp.step (fun a op => op.Ok a) a calls

/-- What shrinking a file to `offset` bytes did. -/
structure Shrunk (metadata : StorageMetadata) (id offset : Nat) (db : Db) (inode : Inode)
    (l : List FileExtent) (db' : Db) (l' : List FileExtent) : Prop where
  inv : db'.Inv metadata
  file : db'.FileAt id { inode with length := offset } l'
  frame : Db.Frame id db db'
  isPrefix : IsPrefix (blockSegments l') (blockSegments l)
  blocks : blockCount l' = blocksFor metadata.blockSize offset
  length_le : l'.length ≤ l.length

variable {metadata : StorageMetadata} {id offset : Nat} {db : Db} {l : List FileExtent}

/-! ## The three parts of the walk -/

theorem truncateLoop_keep (db : Db) (id : Nat) {before : List FileExtent} (rest : List FileExtent)
    {i start : Nat}
    (device : start + blockCount before * metadata.blockSize < 2 ^ 64)
    (kept : start + blockCount before * metadata.blockSize ≤ offset) :
    truncateLoop metadata id offset (before ++ rest) i start db =
        truncateLoop metadata id offset rest (i + before.length)
          (start + blockCount before * metadata.blockSize) db ∧
      shrinkCalls metadata.blockSize offset (before ++ rest) start =
        shrinkCalls metadata.blockSize offset rest
          (start + blockCount before * metadata.blockSize) := by
  induction before generalizing i start with
  | nil => simp [blockCount]
  | cons e before ih =>
    rw [blockCount_cons, Nat.add_mul] at device kept ⊢
    have endEq : u64 (start + e.length * metadata.blockSize) =
        start + e.length * metadata.blockSize := u64_of_lt (by omega)
    have before' : ¬ offset < start := by omega
    have notHere : ¬ offset < start + e.length * metadata.blockSize := by omega
    obtain ⟨walk, calls⟩ := @ih (i + 1) (start + e.length * metadata.blockSize)
      (by omega) (by omega)
    constructor
    · simp only [List.cons_append, truncateLoop, endEq, if_neg before', if_neg notHere,
        Option.bind_eq_bind, Option.bind_some, walk, List.length_cons]
      congr 1
      · omega
      · omega
    · simp only [List.cons_append, shrinkCalls, endEq, if_neg before', if_neg notHere, calls,
        List.nil_append]
      congr 1
      omega

/-- The other extents stay committed when one is freed. -/
theorem Allocator.Committed.freed {a a' : Allocator} {N start : Nat} {e : Extent} (inv : a.Inv N)
    (bound : N < 2 ^ 64) (stored : a.extents.get start = some e) (ok : FreeOk a start)
    (returned : mtlFreeExtent a start = some a') {o n : Nat} (other : start ≠ o)
    (committed : a.Committed o n) : a'.Committed o n := by
  obtain ⟨x, found, status, length⟩ := committed
  have notFree : x.status ≠ .free := by
    rw [status]
    exact committed_ne_free
  exact ⟨x, mtlFreeExtent_kept inv bound stored ok returned found notFree other.symm, status, length⟩

/-- The other extents stay committed when one is cut. -/
theorem Allocator.Committed.truncated {a a' : Allocator} {N start len : Nat} {e : Extent}
    (inv : a.Inv N) (bound : N < 2 ^ 64) (stored : a.extents.get start = some e)
    (allocated : e.status ≠ .free) (nonzero : len ≠ 0) (ok : TruncateOk a start len)
    (returned : mtlTruncateExtent a start len = some a') {o n : Nat} (other : start ≠ o)
    (committed : a.Committed o n) : a'.Committed o n := by
  obtain ⟨x, found, status, length⟩ := committed
  have notFree : x.status ≠ .free := by
    rw [status]
    exact committed_ne_free
  obtain ⟨-, kept⟩ := mtlTruncateExtent_kept inv bound stored allocated nonzero ok returned
  exact ⟨x, kept found notFree other.symm, status, length⟩

theorem truncateLoop_free (db : Db) (id i : Nat) {rest : List FileExtent} {start : Nat}
    (bound : metadata.numBlocks < 2 ^ 64)
    (inv : db.allocator.Inv metadata.numBlocks)
    (own : ∀ e ∈ rest, db.allocator.Committed e.offset e.length)
    (nodup : (rest.map FileExtent.offset).Nodup)
    (device : start + blockCount rest * metadata.blockSize < 2 ^ 64) (behind : offset < start)
    (ok : CallsOk db.allocator (shrinkCalls metadata.blockSize offset rest start)) :
    ∃ a', truncateLoop metadata id offset rest i start db = some { db with allocator := a' } ∧
      a'.Inv metadata.numBlocks ∧
      ∀ {o n}, (∀ e ∈ rest, e.offset ≠ o) → db.allocator.Committed o n → a'.Committed o n := by
  induction rest generalizing i start db with
  | nil => exact ⟨db.allocator, rfl, inv, fun _ committed => committed⟩
  | cons e rest ih =>
    rw [blockCount_cons, Nat.add_mul] at device
    have endEq : u64 (start + e.length * metadata.blockSize) =
        start + e.length * metadata.blockSize := u64_of_lt (by omega)
    rw [shrinkCalls, if_pos behind, endEq] at ok
    obtain ⟨freeOk, later⟩ := ok
    obtain ⟨x, stored, status, length⟩ := own e List.mem_cons_self
    have notFree : x.status ≠ .free := by rw [status]; exact committed_ne_free
    obtain ⟨a₁, freed, inv₁⟩ := mtlFreeExtent_inv inv bound stored notFree freeOk
    have kept : ∀ {o n}, e.offset ≠ o → db.allocator.Committed o n → a₁.Committed o n :=
      Allocator.Committed.freed inv bound stored freeOk freed
    rw [List.map_cons, List.nodup_cons] at nodup
    have others : ∀ e' ∈ rest, e.offset ≠ e'.offset := by
      intro e' member same
      exact nodup.1 (by rw [same]; exact List.mem_map_of_mem member)
    obtain ⟨a', walked, inv', kept'⟩ := @ih { db with allocator := a₁ } (i + 1)
      (start + e.length * metadata.blockSize) inv₁
      (fun e' member => kept (others e' member) (own e' (List.mem_cons_of_mem _ member)))
      nodup.2 (by omega) (by omega) (later a₁ freed)
    refine ⟨a', ?_, inv', ?_⟩
    · simp only [truncateLoop, if_pos behind, freed, Option.bind_eq_bind, Option.bind_some, endEq,
        walked]
    · intro o n outside committed
      exact kept' (fun e' member => outside e' (List.mem_cons_of_mem _ member))
        (kept (outside e List.mem_cons_self) committed)

theorem modify_length_concat {α : Type} (l : List α) (x : α) (f : α → α) :
    (l ++ [x]).modify l.length f = l ++ [f x] := by
  induction l with
  | nil => rfl
  | cons y l ih => simpa using ih

theorem mtlTruncateFileExtents_cut {inode : Inode} {before after : List FileExtent}
    {pivot : FileExtent} (loaded : mtlLoadFile db id = some (inode, before ++ pivot :: after))
    (newFileLength n : Nat) :
    mtlTruncateFileExtents db id newFileLength (before.length + 1) (some n) =
      some (mtlPutInode db id { inode with length := newFileLength }
        (extentBytes (before ++ [⟨pivot.offset, n⟩]))) := by
  have taken : (before ++ pivot :: after).take (before.length + 1) = before ++ [pivot] := by
    simp [List.take_append]
  simp only [mtlTruncateFileExtents, loaded, Option.bind_eq_bind, Option.bind_some, taken,
    Nat.add_sub_cancel, modify_length_concat]

theorem mtlTruncateFileExtents_drop {inode : Inode} {before after : List FileExtent}
    (loaded : mtlLoadFile db id = some (inode, before ++ after)) (newFileLength : Nat) :
    mtlTruncateFileExtents db id newFileLength before.length none =
      some (mtlPutInode db id { inode with length := newFileLength } (extentBytes before)) := by
  simp only [mtlTruncateFileExtents, loaded, Option.bind_eq_bind, Option.bind_some,
    List.take_left]

/-- What the extent that contains the new end becomes: `a₁` is the allocator and `l'`
the extents of the file after it was cut or dropped. -/
structure PivotDone (metadata : StorageMetadata) (id offset : Nat) (db : Db) (inode : Inode)
    (before : List FileExtent) (pivot : FileExtent) (a₁ : Allocator) (l' : List FileExtent) :
    Prop where
  inv : a₁.Inv metadata.numBlocks
  kept : ∀ {o n}, pivot.offset ≠ o → db.allocator.Committed o n → a₁.Committed o n
  own : ∀ e ∈ l', a₁.Committed e.offset e.length
  offsets : (l'.map FileExtent.offset).Sublist ((before ++ [pivot]).map FileExtent.offset)
  blocks : blockCount l' = blockCount before +
    blocksFor metadata.blockSize (offset - blockCount before * metadata.blockSize)
  isPrefix : ∀ after, IsPrefix (blockSegments l') (blockSegments (before ++ pivot :: after))

/-- The extents in front of the pivot start elsewhere. -/
theorem Db.Inv.ne_pivot {inode : Inode} {before after : List FileExtent} {pivot : FileExtent}
    (inv : db.Inv metadata) (file : db.FileAt id inode (before ++ pivot :: after)) :
    ∀ e ∈ before, pivot.offset ≠ e.offset := by
  have distinct := inv.nodup file
  rw [List.map_append, List.nodup_append] at distinct
  intro e member
  exact (distinct.2.2 _ (List.mem_map_of_mem member) _ (by simp)).symm

/-- The pivot is cut to the blocks in front of the new end. -/
theorem PivotDone.of_cut {inode : Inode} {before after : List FileExtent} {pivot : FileExtent}
    {a₁ : Allocator} {x : Extent} {n : Nat} (inv : db.Inv metadata)
    (file : db.FileAt id inode (before ++ pivot :: after)) (bound : metadata.numBlocks < 2 ^ 64)
    (stored : db.allocator.extents.get pivot.offset = some x) (notFree : x.status ≠ .free)
    (blocks : n = blocksFor metadata.blockSize (offset - blockCount before * metadata.blockSize))
    (nonzero : n ≠ 0) (shorter : n ≤ pivot.length) (ok : TruncateOk db.allocator pivot.offset n)
    (truncated : mtlTruncateExtent db.allocator pivot.offset n = some a₁)
    (inv₁ : a₁.Inv metadata.numBlocks) :
    PivotDone metadata id offset db inode before pivot a₁ (before ++ [⟨pivot.offset, n⟩]) := by
  have kept : ∀ {o k}, pivot.offset ≠ o → db.allocator.Committed o k → a₁.Committed o k :=
    Allocator.Committed.truncated inv.allocator bound stored notFree nonzero ok truncated
  refine ⟨inv₁, kept, ?_, ?_, ?_, ?_⟩
  · intro e member
    rcases List.mem_append.mp member with old | new
    · exact kept (inv.ne_pivot file e old) (inv.committed file e (List.mem_append_left _ old))
    · rw [List.mem_singleton.mp new]
      exact (mtlTruncateExtent_kept inv.allocator bound stored notFree nonzero ok truncated).1
  · simp
  · rw [blockCount_append, blockCount_singleton, blocks]
  · intro after
    have whole : pivot = ⟨pivot.offset, n + (pivot.length - n)⟩ := by
      rw [Nat.add_sub_cancel' shorter]
    have rest : before ++ pivot :: after = (before ++ [pivot]) ++ after := by simp
    rw [rest, blockSegments_append, blockSegments_append, blockSegments_append]
    refine IsPrefix.trans ?_ (.append _ _)
    rw [whole]
    exact .grow_last _ _ _ _

/-- The pivot is freed if no block of it is in front of the new end. -/
theorem PivotDone.of_free {inode : Inode} {before after : List FileExtent} {pivot : FileExtent}
    {a₁ : Allocator} {x : Extent} (inv : db.Inv metadata)
    (file : db.FileAt id inode (before ++ pivot :: after)) (bound : metadata.numBlocks < 2 ^ 64)
    (stored : db.allocator.extents.get pivot.offset = some x)
    (none : blocksFor metadata.blockSize (offset - blockCount before * metadata.blockSize) = 0)
    (ok : FreeOk db.allocator pivot.offset)
    (freed : mtlFreeExtent db.allocator pivot.offset = some a₁)
    (inv₁ : a₁.Inv metadata.numBlocks) :
    PivotDone metadata id offset db inode before pivot a₁ before := by
  have kept : ∀ {o n}, pivot.offset ≠ o → db.allocator.Committed o n → a₁.Committed o n :=
    Allocator.Committed.freed inv.allocator bound stored ok freed
  refine ⟨inv₁, kept, ?_, ?_, ?_, ?_⟩
  · intro e member
    exact kept (inv.ne_pivot file e member) (inv.committed file e (List.mem_append_left _ member))
  · rw [List.map_append]
    exact List.sublist_append_left _ _
  · rw [none, Nat.add_zero]
  · intro after
    rw [blockSegments_append]
    exact .append _ _

theorem truncateLoop_pivot {inode : Inode} {before after : List FileExtent} {pivot : FileExtent}
    (inv : db.Inv metadata) (file : db.FileAt id inode (before ++ pivot :: after))
    (bound : metadata.numBlocks < 2 ^ 64) (blockSize : 0 < metadata.blockSize)
    (device : (blockCount before + pivot.length) * metadata.blockSize < 2 ^ 64)
    (low : blockCount before * metadata.blockSize ≤ offset)
    (high : offset < (blockCount before + pivot.length) * metadata.blockSize)
    (ok : CallsOk db.allocator (shrinkCalls metadata.blockSize offset (pivot :: after)
      (blockCount before * metadata.blockSize))) :
    ∃ a₁ l', PivotDone metadata id offset db inode before pivot a₁ l' ∧
      truncateLoop metadata id offset (pivot :: after) before.length
          (blockCount before * metadata.blockSize) db =
        truncateLoop metadata id offset after (before.length + 1)
          ((blockCount before + pivot.length) * metadata.blockSize)
          (mtlPutInode { db with allocator := a₁ } id { inode with length := offset }
            (extentBytes l')) ∧
      CallsOk a₁ (shrinkCalls metadata.blockSize offset after
        ((blockCount before + pivot.length) * metadata.blockSize)) := by
  have endEq : u64 (blockCount before * metadata.blockSize +
      pivot.length * metadata.blockSize) =
        (blockCount before + pivot.length) * metadata.blockSize := by
    rw [Nat.add_mul] at device ⊢
    exact u64_of_lt device
  have notBehind : ¬ offset < blockCount before * metadata.blockSize := by omega
  obtain ⟨x, stored, status, length⟩ := inv.committed file pivot (by simp)
  have notFree : x.status ≠ .free := by rw [status]; exact committed_ne_free
  rw [shrinkCalls, if_neg notBehind, endEq, if_pos high] at ok
  by_cases nonzero : blocksFor metadata.blockSize
      (offset - blockCount before * metadata.blockSize) ≠ 0
  · rw [if_pos nonzero] at ok
    obtain ⟨truncateOk, later⟩ := ok
    obtain ⟨a₁, truncated, inv₁⟩ :=
      mtlTruncateExtent_inv inv.allocator bound stored notFree truncateOk
    have shorter : blocksFor metadata.blockSize
        (offset - blockCount before * metadata.blockSize) ≤ pivot.length := by
      rw [blocksFor_le_iff blockSize]
      rw [Nat.add_mul] at high
      omega
    have done := PivotDone.of_cut inv file bound stored notFree rfl nonzero shorter truncateOk
      truncated inv₁
    refine ⟨a₁, _, done, ?_, later a₁ truncated⟩
    have loaded : mtlLoadFile { db with allocator := a₁ } id =
        some (inode, before ++ pivot :: after) := file.1
    have updated := mtlTruncateFileExtents_cut loaded offset
      (blocksFor metadata.blockSize (offset - blockCount before * metadata.blockSize))
    simp only [truncateLoop, if_neg notBehind, endEq, if_pos high, if_pos nonzero, truncated,
      Option.bind_eq_bind, Option.bind_some, updated]
  · rw [if_neg nonzero] at ok
    obtain ⟨freeOk, later⟩ := ok
    obtain ⟨a₁, freed, inv₁⟩ := mtlFreeExtent_inv inv.allocator bound stored notFree freeOk
    have done := PivotDone.of_free inv file bound stored (not_not.mp nonzero) freeOk freed inv₁
    refine ⟨a₁, before, done, ?_, later a₁ freed⟩
    have loaded : mtlLoadFile { db with allocator := a₁ } id =
        some (inode, before ++ pivot :: after) := file.1
    have updated := mtlTruncateFileExtents_drop loaded offset
    simp only [truncateLoop, if_neg notBehind, endEq, if_pos high, if_neg nonzero, freed,
      Option.bind_eq_bind, Option.bind_some, updated]

/-! ## The whole walk -/

/-- The extent that contains the new end. -/
theorem exists_pivot {blockSize : Nat} (short : offset < blockCount l * blockSize) :
    ∃ before pivot after, l = before ++ pivot :: after ∧
      blockCount before * blockSize ≤ offset ∧
      offset < (blockCount before + pivot.length) * blockSize := by
  induction l generalizing offset with
  | nil => simp [blockCount] at short
  | cons e l ih =>
    by_cases here : offset < e.length * blockSize
    · exact ⟨[], e, l, rfl, by simp [blockCount], by simpa [blockCount] using here⟩
    · rw [blockCount_cons, Nat.add_mul] at short
      obtain ⟨before, pivot, after, split, low, high⟩ :=
        @ih (offset - e.length * blockSize) (by omega)
      refine ⟨e :: before, pivot, after, by rw [split]; rfl, ?_, ?_⟩
      · rw [blockCount_cons, Nat.add_mul]
        omega
      · rw [blockCount_cons, Nat.add_assoc, Nat.add_mul]
        omega

theorem blocksFor_add {blockSize : Nat} (positive : 0 < blockSize) (m bytes : Nat) :
    blocksFor blockSize (m * blockSize + bytes) = m + blocksFor blockSize bytes := by
  have modEq : (m * blockSize + bytes) % blockSize = bytes % blockSize := by
    rw [Nat.add_comm, Nat.add_mul_mod_self_right]
  have divEq : (m * blockSize + bytes) / blockSize = m + bytes / blockSize := by
    rw [Nat.add_comm, Nat.add_mul_div_right _ _ positive, Nat.add_comm]
  unfold blocksFor
  rw [modEq, divEq]
  split <;> omega

/-- Shrinking a file cuts it at the new end and frees the blocks behind it. -/
theorem truncateLoop_spec {inode : Inode} (inv : db.Inv metadata) (file : db.FileAt id inode l)
    (blockSize : 0 < metadata.blockSize)
    (device : metadata.numBlocks * metadata.blockSize < 2 ^ 64) (bound : metadata.numBlocks < 2 ^ 64)
    (short : offset < inode.length)
    (ok : CallsOk db.allocator (shrinkCalls metadata.blockSize offset l 0)) :
    ∃ db' l', truncateLoop metadata id offset l 0 0 db = some db' ∧
      Shrunk metadata id offset db inode l db' l' := by
  have fits := Nat.mul_le_mul_right metadata.blockSize (inv.blockCount_le file)
  have covered := inv.covered file
  obtain ⟨before, pivot, after, split, low, high⟩ :=
    exists_pivot (show offset < blockCount l * metadata.blockSize by omega)
  subst split
  have count : blockCount (before ++ pivot :: after) * metadata.blockSize =
      (blockCount before + pivot.length) * metadata.blockSize +
        blockCount after * metadata.blockSize := by
    rw [blockCount_append, blockCount_cons, ← Nat.add_assoc, Nat.add_mul]
  have start : 0 + blockCount before * metadata.blockSize = blockCount before * metadata.blockSize :=
    Nat.zero_add _
  obtain ⟨skip, calls⟩ := truncateLoop_keep db id (pivot :: after) (i := 0)
    (show 0 + blockCount before * metadata.blockSize < 2 ^ 64 by omega)
    (show 0 + blockCount before * metadata.blockSize ≤ offset by omega)
  rw [calls, start] at ok
  rw [start, Nat.zero_add] at skip
  obtain ⟨a₁, l', done, step, later⟩ := truncateLoop_pivot inv file bound blockSize (by omega) low
    high ok
  have distinct := inv.nodup file
  have split : (before ++ pivot :: after).map FileExtent.offset =
      (before ++ [pivot]).map FileExtent.offset ++ after.map FileExtent.offset := by simp
  rw [split, List.nodup_append] at distinct
  have apart : ∀ e ∈ after, pivot.offset ≠ e.offset :=
    fun e member => distinct.2.2 _ (by simp) _ (List.mem_map_of_mem member)
  obtain ⟨a', walked, inv', kept⟩ := truncateLoop_free
    (mtlPutInode { db with allocator := a₁ } id { inode with length := offset } (extentBytes l'))
    id (before.length + 1) bound done.inv
    (fun e member => done.kept (apart e member) (inv.committed file e (by simp [member])))
    distinct.2.1 (by omega) high later
  obtain ⟨inv₂, file₂, frame₂⟩ := mtlPutInode_spec inv bound file offset l' inv'
    (by
      intro o n notOwn committed
      exact kept (fun e member => notOwn e (by simp [member]))
        (done.kept (notOwn pivot (by simp)) committed))
    (by
      intro e member
      have inOffsets := done.offsets.subset (List.mem_map_of_mem member)
      exact kept (fun e' member' => (distinct.2.2 _ inOffsets _
        (List.mem_map_of_mem member')).symm) (done.own e member))
    (distinct.1.sublist done.offsets)
    (by
      intro e member
      obtain ⟨e', member', same⟩ :=
        List.mem_map.mp (done.offsets.subset (List.mem_map_of_mem member))
      exact Or.inl ⟨e', by
        rcases List.mem_append.mp member' with old | last
        · exact List.mem_append_left _ old
        · exact List.mem_append_right _ (by simp [List.mem_singleton.mp last]), same⟩)
    (by
      rw [← blocksFor_le_iff blockSize, done.blocks, ← blocksFor_add blockSize,
        Nat.add_sub_cancel' low])
  refine ⟨_, l', by rw [skip, step]; exact walked, inv₂, file₂, frame₂, done.isPrefix after, ?_, ?_⟩
  · rw [done.blocks, ← blocksFor_add blockSize, Nat.add_sub_cancel' low]
  · have shorter := done.offsets.length_le
    simp only [List.length_map, List.length_append, List.length_cons, List.length_nil] at shorter ⊢
    omega

end MetalFs
