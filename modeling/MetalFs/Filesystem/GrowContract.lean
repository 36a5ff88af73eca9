import MetalFs.Filesystem.MetalGrow
import MetalFs.Filesystem.ReserveContract

/-!
# The contract of growing a file

`GrowContract` says what `mtl_expand_inode` is to do with a file whose extents are allocated.
`growContract_iff` is the condition under which it does: there are not enough free blocks, or no
round of its loop uses up the free extent behind the last extent of the file in place.  Such a
round leaves an entry in the extent list that is longer than the extent that is recorded, and no
later round repairs it.

The rounds are followed through states in which blocks have been lost already (`Owned`): the
records are disjoint, and each entry of the list has one that is not longer than the entry.
-/

namespace MetalFs

open Segments OrderedStore

/-! ## One round -/

/-- The extents of the file once `newExtent` belongs to it. -/
def assigned (l : List FileExtent) (newExtent : FileExtent) : List FileExtent :=
  if (l.getLastD ⟨0, 0⟩).length ≠ 0 ∧ (l.getLastD ⟨0, 0⟩).offset = newExtent.offset then
    l.dropLast ++ [growLastExtent (l.getLastD ⟨0, 0⟩) newExtent]
  else l ++ [newExtent]

variable {metadata : StorageMetadata} {id bytes N size : Nat} {db : Db} {inode : Inode}
  {l : List FileExtent} {a a' : Allocator} {newExtent : FileExtent}

theorem assignExtent_eq (loaded : mtlLoadFile db id = some (inode, l)) (newLength : Nat) :
    assignExtent db id (l.getLastD ⟨0, 0⟩) newExtent newLength =
      some (mtlPutInode db id { inode with length := newLength }
        (extentBytes (assigned l newExtent))) := by
  unfold assignExtent assigned
  split
  · rename_i grown
    have nonempty : l ≠ [] := by
      rintro rfl
      exact grown.1 rfl
    simp only [mtlExtendLastExtentInFile, loaded, Option.bind_eq_bind, Option.bind_some,
      if_neg nonempty]
  · simp only [mtlAddExtentToFile, loaded, Option.bind_eq_bind, Option.bind_some]

theorem getLastD_assigned (l : List FileExtent) (newExtent : FileExtent) :
    (assigned l newExtent).getLastD ⟨0, 0⟩ = growLastExtent (l.getLastD ⟨0, 0⟩) newExtent := by
  unfold assigned
  split
  · rw [List.getLastD_concat]
  · rename_i fresh
    rw [List.getLastD_concat, growLastExtent, if_neg fresh]

/-- The new blocks are a new extent. -/
theorem assigned_of_ne (other : ∀ last ∈ l.getLast?, last.offset ≠ newExtent.offset) :
    assigned l newExtent = l ++ [newExtent] := by
  refine if_neg ?_
  rintro ⟨nonzero, same⟩
  rcases List.eq_nil_or_concat l with rfl | ⟨init, last, rfl⟩
  · exact nonzero rfl
  · rw [List.concat_eq_append, List.getLastD_concat] at same
    exact other last (by simp) same

/-- The new blocks have grown the last extent. -/
theorem assigned_of_last {init : List FileExtent} {last : FileExtent} (positive : 0 < last.length)
    {n : Nat} (small : last.length + n < 2 ^ 64) :
    assigned (init ++ [last]) ⟨last.offset, n⟩ = init ++ [⟨last.offset, last.length + n⟩] := by
  have grown : last.length ≠ 0 ∧ last.offset = last.offset := ⟨by omega, rfl⟩
  rw [assigned, List.getLastD_concat, if_pos grown, List.dropLast_concat, growLastExtent,
    if_pos grown, u64_of_lt small]

theorem expandLoop_done (metadata : StorageMetadata) (id bytes fuel : Nat) (db : Db) {current : Nat}
    (last : FileExtent) (done : blocksFor metadata.blockSize bytes ≤ current) :
    expandLoop metadata id bytes fuel db current last = some db := by
  cases fuel with
  | zero => rw [expandLoop, if_neg (Nat.not_lt.mpr done)]
  | succ fuel => rw [expandLoop, if_neg (Nat.not_lt.mpr done)]

/-- The length of the file after a round that leaves it with `current` blocks. -/
def roundLength (blockSize bytes current : Nat) : Nat :=
  if u64 (current * blockSize) < bytes then u64 (current * blockSize) else bytes

/-- The databases after a round. -/
def roundDb (metadata : StorageMetadata) (db : Db) (id bytes : Nat) (inode : Inode)
    (l : List FileExtent) (current : Nat) (a' : Allocator) : Db :=
  mtlPutInode { db with allocator := a' } id
    { inode with length := roundLength metadata.blockSize bytes current } (extentBytes l)

theorem expandLoop_round {fuel current n offset : Nat}
    (loaded : mtlLoadFile db id = some (inode, l))
    (missing : current < blocksFor metadata.blockSize bytes)
    (returned : mtlReserveExtent db.allocator (blocksFor metadata.blockSize bytes - current)
      (lastExtentArg (l.getLastD ⟨0, 0⟩)) true = some (n, some offset, a'))
    (positive : 0 < n) (small : current + n < 2 ^ 64) :
    expandLoop metadata id bytes (fuel + 1) db current (l.getLastD ⟨0, 0⟩) =
      expandLoop metadata id bytes fuel
        (roundDb metadata db id bytes inode (assigned l ⟨offset, n⟩) (current + n) a') (current + n)
        ((assigned l ⟨offset, n⟩).getLastD ⟨0, 0⟩) := by
  have loaded' : mtlLoadFile { db with allocator := a' } id = some (inode, l) := loaded
  simp only [expandLoop, if_pos missing, returned, Option.bind_eq_bind, Option.bind_some,
    if_neg (Nat.ne_of_gt positive), u64_of_lt small, assignExtent_eq loaded', getLastD_assigned]
  rfl

/-- The round that gets all that is missing is the last one. -/
theorem expandLoop_last {fuel current offset : Nat}
    (loaded : mtlLoadFile db id = some (inode, l))
    (missing : current < blocksFor metadata.blockSize bytes)
    (returned : mtlReserveExtent db.allocator (blocksFor metadata.blockSize bytes - current)
      (lastExtentArg (l.getLastD ⟨0, 0⟩)) true =
        some (blocksFor metadata.blockSize bytes - current, some offset, a'))
    (small : blocksFor metadata.blockSize bytes < 2 ^ 64) :
    expandLoop metadata id bytes (fuel + 1) db current (l.getLastD ⟨0, 0⟩) =
      some (roundDb metadata db id bytes inode
        (assigned l ⟨offset, blocksFor metadata.blockSize bytes - current⟩)
        (blocksFor metadata.blockSize bytes) a') := by
  have total : current + (blocksFor metadata.blockSize bytes - current) =
      blocksFor metadata.blockSize bytes := by omega
  rw [expandLoop_round loaded missing returned (by omega) (by omega), total]
  exact expandLoop_done _ _ _ _ _ _ (le_refl _)

/-! ## What a reservation can do when blocks have been lost -/

/-- Each entry of the list has a record of its own, which is allocated and not longer. -/
structure Owned (a : Allocator) (N : Nat) (l : List FileExtent) : Prop where
  loose : a.Loose N
  recorded : ∀ e ∈ l, ∃ x, a.extents.get e.offset = some x ∧ x.status ≠ .free ∧ x.length ≤ e.length
  inside : ∀ e ∈ l, e.offset + e.length ≤ N
  nodup : (l.map FileExtent.offset).Nodup

namespace Owned

theorem pos (owned : Owned a N l) {e : FileExtent} (member : e ∈ l) : 0 < e.length := by
  obtain ⟨x, stored, -, le⟩ := owned.recorded e member
  have positive := owned.loose.pos stored
  omega

theorem fits (owned : Owned a N l) (bound : N < 2 ^ 64) : ∀ e ∈ l, e.Fits := by
  intro e member
  have inside := owned.inside e member
  exact ⟨by omega, by omega⟩

theorem lastExtentArg (owned : Owned a N l) :
    lastExtentArg (l.getLastD ⟨0, 0⟩) = l.getLast? :=
  lastExtentArg_getLastD fun _ member => owned.pos member

end Owned

/-- The databases after the extent at `last`, of which `x` is recorded, was grown by `size` blocks
of the free extent `next` behind it. -/
def grownBy (a : Allocator) (last : FileExtent) (x next : Extent) (size : Nat) : Allocator :=
  { extents := ((a.extents.del (last.offset + last.length)).put (last.offset + (x.length + size))
      ⟨x.length + next.length - (x.length + size), .free,
        ⟨x.length + next.length - (x.length + size), last.offset + (x.length + size)⟩⟩).put
          last.offset ⟨x.length + size, .committed, x.pqNode⟩
    heap := (a.heap.del ⟨next.length, last.offset + last.length⟩).put
      ⟨x.length + next.length - (x.length + size), last.offset + (x.length + size)⟩
        (last.offset + (x.length + size)) }

/-- The databases after it was grown by all blocks of `next`. -/
def filledUp (a : Allocator) (last : FileExtent) (x next : Extent) : Allocator :=
  ⟨(a.extents.del (last.offset + last.length)).put last.offset { x with status := .committed },
    a.heap.del ⟨next.length, last.offset + last.length⟩⟩

/-- Everything a reservation can do for a file. -/
theorem mtlReserveExtent_owned (owned : Owned a N l) (bound : N < 2 ^ 64) (small : size < 2 ^ 64)
    (noWrap : ∀ last ∈ l.getLast?, last.length + size < 2 ^ 64) :
    (mtlReserveExtent a size l.getLast? true = some (0, none, a) ∧ a.freeBlocks = 0) ∨
      (∃ offset e, a.extents.get offset = some e ∧ e.status = .free ∧
        mtlReserveExtent a size l.getLast? true = some (reservedFresh a offset e size true)) ∨
      ∃ init last x next, l = init ++ [last] ∧ a.extents.get last.offset = some x ∧
        x.status ≠ .free ∧ x.length ≤ last.length ∧
        a.extents.get (last.offset + last.length) = some next ∧ next.status = .free ∧
        ((size < next.length ∧ mtlReserveExtent a size l.getLast? true =
            some (size, some last.offset, grownBy a last x next size)) ∨
          (next.length ≤ size ∧ mtlReserveExtent a size l.getLast? true =
            some (next.length, some last.offset, filledUp a last x next))) := by
  by_cases followed : FollowedByFree a l.getLast?
  · obtain ⟨last, isLast, next, following, free⟩ := followed
    obtain ⟨init, rfl⟩ : ∃ init, l = init ++ [last] := List.getLast?_eq_some_iff.mp isLast
    have member : last ∈ init ++ [last] := by simp
    obtain ⟨x, stored, notFree, le⟩ := owned.recorded last member
    refine Or.inr (Or.inr ⟨init, last, x, next, rfl, stored, notFree, le, following, free, ?_⟩)
    have short := noWrap last isLast
    have inside := owned.loose.le following
    have lengthEq : u64 (x.length + next.length) = x.length + next.length := u64_of_lt (by omega)
    have totalEq : u64 (x.length + size) = x.length + size := u64_of_lt (by omega)
    rw [List.getLast?_concat, mtlReserveExtent_of_followed owned.loose bound size true
      (owned.pos member) stored following free]
    simp only [handOut, splitCandidate, lengthEq, totalEq, mtlHeapInsert]
    rcases Nat.lt_or_ge size next.length with cut | fills
    · have isCut : x.length + size < x.length + next.length := by omega
      have offsetEq : u64 (last.offset + (x.length + size)) = last.offset + (x.length + size) :=
        u64_of_lt (by omega)
      have resultEq : u64 (x.length + size + 2 ^ 64 - x.length) = size := by
        unfold u64
        omega
      refine Or.inl ⟨cut, ?_⟩
      rw [if_pos isCut, offsetEq, resultEq]
      rfl
    · have notCut : ¬ x.length + size < x.length + next.length := by omega
      have resultEq : u64 (x.length + next.length + 2 ^ 64 - x.length) = next.length := by
        unfold u64
        omega
      refine Or.inr ⟨fills, ?_⟩
      rw [if_neg notCut, resultEq]
      rfl
  · have inside : ∀ last ∈ l.getLast?, last.offset + last.length ≤ N :=
      fun last isLast => owned.inside last (List.mem_of_getLast? isLast)
    rcases mtlReserveExtent_of_alone owned.loose bound small true inside followed with
      ⟨none, absent⟩ | fresh
    · exact Or.inl ⟨none, freeBlocks_eq_zero absent⟩
    · exact Or.inr (Or.inl fresh)

section Rounds

variable {offset : Nat} {e x next : Extent} {init : List FileExtent} {last : FileExtent}

/-- The databases after the free extent `e` at `offset` was handed out as a whole. -/
def takenWhole (a : Allocator) (offset : Nat) (e : Extent) : Allocator :=
  ⟨a.extents.put offset { e with status := .committed }, a.heap.del ⟨e.length, offset⟩⟩

theorem freeBlocks_takenWhole (stored : a.extents.get offset = some e) (free : e.status = .free) :
    a.freeBlocks = (takenWhole a offset e).freeBlocks + e.length := by
  have taken := weight_put_of_get (w := freeLength) (v := { e with status := .committed }) stored
  simp only [Allocator.freeBlocks, takenWhole, freeLength_mk_committed,
    freeLength_of_free free] at *
  omega

theorem freeBlocks_filledUp (positive : 0 < last.length)
    (stored : a.extents.get last.offset = some x) (notFree : x.status ≠ .free)
    (following : a.extents.get (last.offset + last.length) = some next)
    (free : next.status = .free) :
    a.freeBlocks = (filledUp a last x next).freeBlocks + next.length := by
  have apart : last.offset ≠ last.offset + last.length := by omega
  have removed := weight_of_get (w := freeLength) following
  have taken := weight_put_of_get (w := freeLength)
    (m := a.extents.del (last.offset + last.length)) (v := { x with status := .committed })
    (by rw [get_del_of_ne apart]; exact stored)
  simp only [Allocator.freeBlocks, filledUp, freeLength_mk_committed, freeLength_of_free free,
    freeLength_of_ne notFree] at *
  omega

theorem le_freeBlocks (stored : a.extents.get offset = some e) (free : e.status = .free) :
    e.length ≤ a.freeBlocks := by
  have share := weight_of_get (w := freeLength) stored
  rw [freeLength_of_free free] at share
  rw [Allocator.freeBlocks]
  omega

/-- A free extent is not where an extent of the file is. -/
theorem Owned.offset_ne (owned : Owned a N l) (stored : a.extents.get offset = some e)
    (free : e.status = .free) : ∀ e' ∈ l, e'.offset ≠ offset := by
  rintro e' member rfl
  obtain ⟨x, found, notFree, -⟩ := owned.recorded e' member
  rw [stored] at found
  cases found
  exact notFree free

/-- An extent that was free becomes an entry of its own. -/
theorem Owned.assigned_fresh (owned : Owned a N l) (n : Nat) (stored : a.extents.get offset = some e)
    (free : e.status = .free) : assigned l ⟨offset, n⟩ = l ++ [⟨offset, n⟩] :=
  assigned_of_ne fun last isLast => owned.offset_ne stored free last (List.mem_of_getLast? isLast)

theorem Owned.takenWhole (owned : Owned a N l) (stored : a.extents.get offset = some e)
    (free : e.status = .free) :
    Owned (takenWhole a offset e) N (l ++ [⟨offset, e.length⟩]) := by
  have other := owned.offset_ne stored free
  refine ⟨owned.loose.take stored _ committed_ne_free rfl, ?_, ?_, ?_⟩
  · intro e' member
    rcases List.mem_append.mp member with old | new
    · obtain ⟨x, found, notFree, le⟩ := owned.recorded e' old
      exact ⟨x, (get_put_of_ne (other e' old)).trans found, notFree, le⟩
    · rw [List.mem_singleton.mp new]
      exact ⟨_, get_put_self _ _ _, committed_ne_free, le_refl _⟩
  · intro e' member
    rcases List.mem_append.mp member with old | new
    · exact owned.inside e' old
    · rw [List.mem_singleton.mp new]
      exact owned.loose.le stored
  · exact nodup_concat owned.nodup other e.length

theorem Allocator.Loose.filledUp (loose : a.Loose N) (stored : a.extents.get last.offset = some x)
    (notFree : x.status ≠ .free)
    (following : a.extents.get (last.offset + last.length) = some next) :
    (filledUp a last x next).Loose N := by
  refine loose.of_kept ?_ ?_ ?_
  · intro o y found
    simp only [MetalFs.filledUp, get_put, get_del] at found
    split at found
    · rename_i same
      subst same
      cases found
      exact ⟨x, stored, rfl⟩
    · split at found
      · cases found
      · exact ⟨y, found, rfl⟩
  · intro o y found isFree
    simp only [MetalFs.filledUp, get_put, get_del] at found ⊢
    split at found
    · cases found
      cases isFree
    · split at found
      · cases found
      · rename_i notNext
        obtain ⟨node, inHeap⟩ := loose.listed found isFree
        exact ⟨node, by rw [if_neg (by simp [notNext]), inHeap]⟩
  · intro id value inHeap
    simp only [MetalFs.filledUp, get_del] at inHeap
    split at inHeap
    · cases inHeap
    · rename_i kept
      obtain ⟨y, found, isFree, rfl⟩ := loose.only inHeap
      have notNext : value ≠ last.offset + last.length := by
        rintro rfl
        rw [following] at found
        cases found
        exact kept rfl
      have notLast : value ≠ last.offset := by
        rintro rfl
        rw [stored] at found
        cases found
        exact notFree isFree
      refine ⟨y, ?_, isFree, rfl⟩
      simp only [MetalFs.filledUp]
      rw [get_put_of_ne notLast, get_del_of_ne notNext, found]

/-- What the records of the other entries are after the last extent was grown by all blocks behind
it. -/
theorem filledUp_kept (owned : Owned a N (init ++ [last]))
    (following : a.extents.get (last.offset + last.length) = some next)
    (free : next.status = .free) {e' : FileExtent} (member : e' ∈ init) :
    (filledUp a last x next).extents.get e'.offset = a.extents.get e'.offset := by
  have notNext := owned.offset_ne following free e' (by simp [member])
  have distinct := owned.nodup
  rw [List.map_append, List.nodup_append] at distinct
  have notLast := distinct.2.2 _ (List.mem_map_of_mem member) _ (show last.offset ∈ _ by simp)
  simp only [filledUp]
  rw [get_put_of_ne notLast, get_del_of_ne notNext]

theorem Owned.filledUp (owned : Owned a N (init ++ [last]))
    (stored : a.extents.get last.offset = some x) (notFree : x.status ≠ .free)
    (le : x.length ≤ last.length)
    (following : a.extents.get (last.offset + last.length) = some next)
    (free : next.status = .free) :
    Owned (filledUp a last x next) N (init ++ [⟨last.offset, last.length + next.length⟩]) := by
  have behind := owned.loose.le following
  refine ⟨owned.loose.filledUp stored notFree following, ?_, ?_, ?_⟩
  · intro e' member
    rcases List.mem_append.mp member with old | new
    · rw [filledUp_kept owned following free old]
      exact owned.recorded e' (by simp [old])
    · rw [List.mem_singleton.mp new]
      exact ⟨_, get_put_self _ _ _, committed_ne_free, by dsimp only; omega⟩
  · intro e' member
    rcases List.mem_append.mp member with old | new
    · exact owned.inside e' (by simp [old])
    · rw [List.mem_singleton.mp new]
      dsimp only
      omega
  · simpa using owned.nodup

end Rounds

theorem reservedFresh_of_le {offset : Nat} {e : Extent} (whole : e.length ≤ size) :
    reservedFresh a offset e size true = (e.length, some offset, takenWhole a offset e) := by
  rw [reservedFresh, if_neg (Nat.not_lt.mpr whole)]
  rfl

theorem blocksFor_le_self {blockSize : Nat} (positive : 0 < blockSize) (bytes : Nat) :
    blocksFor blockSize bytes ≤ bytes := by
  rw [blocksFor_le_iff positive]
  exact Nat.le_mul_of_pos_right _ positive

theorem last_le_blockCount {last : FileExtent} (isLast : last ∈ l.getLast?) :
    last.length ≤ blockCount l := by
  obtain ⟨init, rfl⟩ := List.getLast?_eq_some_iff.mp isLast
  rw [blockCount_append, blockCount_singleton]
  omega

/-- What is missing fits behind the last extent. -/
theorem last_add_lt {need : Nat} (missing : blockCount l < need) (small : need < 2 ^ 64) :
    ∀ last ∈ l.getLast?, last.length + (need - blockCount l) < 2 ^ 64 := by
  intro last isLast
  have le := last_le_blockCount isLast
  omega

theorem fits_concat {e : FileExtent} (fits : ∀ e ∈ l, e.Fits) (new : e.Fits) :
    ∀ e' ∈ l ++ [e], e'.Fits := by
  rw [List.forall_mem_append]
  exact ⟨fits, List.forall_mem_singleton.mpr new⟩

theorem roundDb_loaded {current : Nat} (fits : ∀ e ∈ l, e.Fits) :
    mtlLoadFile (roundDb metadata db id bytes inode l current a') id =
      some ({ inode with length := roundLength metadata.blockSize bytes current }, l) :=
  mtlLoadFile_put_self fits

/-! ## Too few free blocks -/

/-- The loop of `mtl_expand_inode` comes to a round in which `mtl_reserve_extent` returns 0, so
that its assertion fails. -/
def AssertFails (metadata : StorageMetadata) (inodeId writeEndBytes : Nat) :
    Nat → Db → Nat → FileExtent → Prop
  | 0, _, _, _ => False
  | fuel + 1, db, current, lastExtent =>
    current < blocksFor metadata.blockSize writeEndBytes ∧
      ∃ length offset allocator,
        mtlReserveExtent db.allocator (blocksFor metadata.blockSize writeEndBytes - current)
          (lastExtentArg lastExtent) true = some (length, offset, allocator) ∧
        (length = 0 ∨ ∃ o ∈ offset, ∃ db' ∈ assignExtent { db with allocator } inodeId lastExtent
            ⟨o, length⟩ (roundLength metadata.blockSize writeEndBytes (u64 (current + length))),
          AssertFails metadata inodeId writeEndBytes fuel db' (u64 (current + length))
            (growLastExtent lastExtent ⟨o, length⟩))

theorem assertFails_round {fuel n offset : Nat} (loaded : mtlLoadFile db id = some (inode, l))
    (missing : blockCount l < blocksFor metadata.blockSize bytes)
    (returned : mtlReserveExtent db.allocator (blocksFor metadata.blockSize bytes - blockCount l)
      (lastExtentArg (l.getLastD ⟨0, 0⟩)) true = some (n, some offset, a'))
    (small : blockCount l + n < 2 ^ 64)
    (later : AssertFails metadata id bytes fuel
      (roundDb metadata db id bytes inode (assigned l ⟨offset, n⟩) (blockCount l + n) a')
      (blockCount l + n) ((assigned l ⟨offset, n⟩).getLastD ⟨0, 0⟩)) :
    AssertFails metadata id bytes (fuel + 1) db (blockCount l) (l.getLastD ⟨0, 0⟩) := by
  have loaded' : mtlLoadFile { db with allocator := a' } id = some (inode, l) := loaded
  refine ⟨missing, n, some offset, a', returned, Or.inr ⟨offset, rfl, _,
    assignExtent_eq loaded' _, ?_⟩⟩
  rw [u64_of_lt small, ← getLastD_assigned]
  exact later

/-- With too few free blocks every round takes a whole free extent, until there is none. -/
theorem assertFails_of_short {fuel : Nat} (owned : Owned db.allocator N l) (bound : N < 2 ^ 64)
    (loaded : mtlLoadFile db id = some (inode, l))
    (small : blocksFor metadata.blockSize bytes < 2 ^ 64)
    (short : db.allocator.freeBlocks < blocksFor metadata.blockSize bytes - blockCount l)
    (enough : db.allocator.freeBlocks < fuel) :
    AssertFails metadata id bytes fuel db (blockCount l) (l.getLastD ⟨0, 0⟩) := by
  induction fuel generalizing db inode l with
  | zero => omega
  | succ fuel ih =>
    have missing : blockCount l < blocksFor metadata.blockSize bytes := by omega
    have noWrap := last_add_lt missing small
    have arg := owned.lastExtentArg
    rcases mtlReserveExtent_owned owned bound (by omega) noWrap with
      ⟨failed, -⟩ | ⟨offset, e, stored, free, fresh⟩ |
        ⟨init, last, x, next, rfl, stored, notFree, le, following, free, grown⟩
    · exact ⟨missing, 0, none, db.allocator, by rw [arg]; exact failed, Or.inl rfl⟩
    · have all := le_freeBlocks stored free
      have left := freeBlocks_takenWhole stored free
      have positive := owned.loose.pos stored
      rw [reservedFresh_of_le (by omega), ← arg] at fresh
      have list := owned.assigned_fresh e.length stored free
      have owned' := owned.takenWhole stored free
      have count : blockCount (l ++ [⟨offset, e.length⟩]) = blockCount l + e.length := by
        rw [blockCount_append, blockCount_singleton]
      refine assertFails_round loaded missing fresh (by omega) ?_
      rw [list, ← count]
      refine ih owned' (roundDb_loaded (owned'.fits bound)) ?_ ?_
      · rw [count]
        change (takenWhole _ _ _).freeBlocks < _
        omega
      · change (takenWhole _ _ _).freeBlocks < _
        omega
    · have all := le_freeBlocks following free
      rcases grown with ⟨cut, -⟩ | ⟨fills, filled⟩
      · omega
      · have positive := owned.pos (show last ∈ init ++ [last] by simp)
        have left := freeBlocks_filledUp positive stored notFree following free
        have nonempty := owned.loose.pos following
        have inside := owned.loose.le following
        rw [← arg] at filled
        have list : assigned (init ++ [last]) ⟨last.offset, next.length⟩ =
            init ++ [⟨last.offset, last.length + next.length⟩] :=
          assigned_of_last positive (by omega)
        have owned' := owned.filledUp stored notFree le following free
        have count : blockCount (init ++ [⟨last.offset, last.length + next.length⟩]) =
            blockCount (init ++ [last]) + next.length := by
          simp only [blockCount_append, blockCount_singleton]
          omega
        refine assertFails_round loaded missing filled (by omega) ?_
        rw [list, ← count]
        refine ih owned' (roundDb_loaded (owned'.fits bound)) ?_ ?_
        · rw [count]
          change (filledUp _ _ _ _).freeBlocks < _
          omega
        · change (filledUp _ _ _ _).freeBlocks < _
          omega

/-! ## An entry that is longer than its record -/

/-- An entry of the list is longer than the extent that is recorded. -/
def Stale (a : Allocator) (l : List FileExtent) : Prop :=
  ∃ e ∈ l, ∃ x, a.extents.get e.offset = some x ∧ x.status ≠ .free ∧ x.length < e.length

/-- The list does not agree with the extents database. -/
def Disagrees (a : Allocator) (l : List FileExtent) : Prop :=
  ∃ e ∈ l, ¬ a.Allocated e.offset e.length

theorem Stale.disagrees (stale : Stale a l) : Disagrees a l := by
  obtain ⟨e, member, x, stored, -, less⟩ := stale
  refine ⟨e, member, ?_⟩
  rintro ⟨y, stored', -, length⟩
  rw [stored] at stored'
  cases stored'
  omega

section StaleRounds

variable {offset : Nat} {e x next : Extent} {init : List FileExtent} {last : FileExtent}

theorem Stale.fresh (stale : Stale a l) (owned : Owned a N l)
    (stored : a.extents.get offset = some e) (free : e.status = .free) (positive : 0 < size)
    {n : Nat} : Stale (reservedFresh a offset e size true).2.2 (l ++ [⟨offset, n⟩]) := by
  obtain ⟨entry, member, y, found, notFree, less⟩ := stale
  have other := owned.offset_ne stored free entry member
  refine ⟨entry, List.mem_append_left _ member, y, ?_, notFree, less⟩
  rcases Nat.lt_or_ge size e.length with cut | whole
  · have inside := owned.loose.get_eq_none_of_inside stored (x := offset + size) (by omega) (by omega)
    have notInside : entry.offset ≠ offset + size := by
      intro same
      rw [same, inside] at found
      cases found
    simp only [reservedFresh, if_pos cut]
    rw [get_put_of_ne other, get_put_of_ne notInside, found]
  · rw [reservedFresh_of_le whole]
    exact (get_put_of_ne other).trans found

theorem Stale.filledUp (stale : Stale a (init ++ [last])) (owned : Owned a N (init ++ [last]))
    (following : a.extents.get (last.offset + last.length) = some next)
    (free : next.status = .free) (stored : a.extents.get last.offset = some x) :
    Stale (filledUp a last x next) (init ++ [⟨last.offset, last.length + next.length⟩]) := by
  obtain ⟨entry, member, y, found, notFree, less⟩ := stale
  rcases List.mem_append.mp member with old | new
  · refine ⟨entry, List.mem_append_left _ old, y, ?_, notFree, less⟩
    rw [filledUp_kept owned following free old, found]
  · rw [List.mem_singleton.mp new, stored] at found
    cases found
    rw [List.mem_singleton.mp new] at less
    exact ⟨_, List.mem_append_right _ (List.mem_singleton_self _), _, get_put_self _ _ _,
      committed_ne_free, by dsimp only; omega⟩

theorem Stale.grownBy (stale : Stale a (init ++ [last])) (owned : Owned a N (init ++ [last]))
    (following : a.extents.get (last.offset + last.length) = some next)
    (free : next.status = .free) (stored : a.extents.get last.offset = some x) :
    Disagrees (grownBy a last x next size) (init ++ [⟨last.offset, last.length + size⟩]) := by
  obtain ⟨entry, member, y, found, notFree, less⟩ := stale
  rcases List.mem_append.mp member with old | new
  · refine ⟨entry, List.mem_append_left _ old, ?_⟩
    have notNext := owned.offset_ne following free entry member
    have distinct := owned.nodup
    rw [List.map_append, List.nodup_append] at distinct
    have notLast := distinct.2.2 _ (List.mem_map_of_mem old) _ (show last.offset ∈ _ by simp)
    rintro ⟨z, found', isUsed, length⟩
    simp only [MetalFs.grownBy] at found'
    rw [get_put_of_ne notLast, get_put] at found'
    split at found'
    · cases found'
      exact isUsed rfl
    · rw [get_del_of_ne notNext, found] at found'
      cases found'
      omega
  · rw [List.mem_singleton.mp new, stored] at found
    cases found
    rw [List.mem_singleton.mp new] at less
    refine ⟨_, List.mem_append_right _ (List.mem_singleton_self _), ?_⟩
    rintro ⟨z, found', -, length⟩
    simp only [MetalFs.grownBy] at found'
    rw [get_put_self] at found'
    cases found'
    dsimp only at length
    omega

end StaleRounds

/-- No later round repairs an entry that is longer than its record. -/
theorem expandLoop_of_stale {fuel : Nat} (owned : Owned db.allocator N l) (bound : N < 2 ^ 64)
    (stale : Stale db.allocator l) (loaded : mtlLoadFile db id = some (inode, l))
    (small : blocksFor metadata.blockSize bytes < 2 ^ 64) {db' : Db}
    (returned : expandLoop metadata id bytes fuel db (blockCount l) (l.getLastD ⟨0, 0⟩) = some db') :
    ∃ inode' l', mtlLoadFile db' id = some (inode', l') ∧ Disagrees db'.allocator l' := by
  induction fuel generalizing db inode l with
  | zero =>
    rw [expandLoop] at returned
    split at returned
    · cases returned
    · cases returned
      exact ⟨inode, l, loaded, stale.disagrees⟩
  | succ fuel ih =>
    rcases Nat.lt_or_ge (blockCount l) (blocksFor metadata.blockSize bytes) with missing | done
    · have noWrap := last_add_lt missing small
      have arg := owned.lastExtentArg
      rcases mtlReserveExtent_owned owned bound (by omega) noWrap with
        ⟨failed, -⟩ | ⟨offset, e, stored, free, fresh⟩ |
          ⟨init, last, x, next, rfl, stored, notFree, le, following, free, grown⟩
      · simp only [expandLoop, if_pos missing, arg, failed, Option.bind_eq_bind,
          Option.bind_some, if_true] at returned
        cases returned
      · have list := fun n => owned.assigned_fresh n stored free
        have nonempty := owned.loose.pos stored
        have inside := owned.loose.le stored
        have stale' := fun n => stale.fresh (n := n) owned stored free
          (show 0 < blocksFor metadata.blockSize bytes - blockCount l by omega)
        rcases Nat.lt_or_ge (blocksFor metadata.blockSize bytes - blockCount l) e.length with
          cut | whole
        · simp only [reservedFresh, if_pos cut] at fresh stale'
          rw [← arg] at fresh
          rw [expandLoop_last loaded missing fresh small, list] at returned
          cases returned
          refine ⟨_, _, roundDb_loaded (fits_concat (owned.fits bound) ⟨?_, ?_⟩),
            (stale' _).disagrees⟩
          · dsimp only
            omega
          · dsimp only
            omega
        · rw [reservedFresh_of_le whole, ← arg] at fresh
          rw [expandLoop_round loaded missing fresh nonempty (by omega), list,
            show blockCount l + e.length = blockCount (l ++ [⟨offset, e.length⟩]) by
              rw [blockCount_append, blockCount_singleton]] at returned
          have owned' := owned.takenWhole stored free
          have stale' := stale' e.length
          rw [reservedFresh_of_le whole] at stale'
          exact ih owned' stale' (roundDb_loaded (owned'.fits bound)) returned
      · have positive := owned.pos (show last ∈ init ++ [last] by simp)
        have nonempty := owned.loose.pos following
        have inside := owned.loose.le following
        have list : ∀ n, n ≤ next.length → assigned (init ++ [last]) ⟨last.offset, n⟩ =
            init ++ [⟨last.offset, last.length + n⟩] :=
          fun n le => assigned_of_last positive (by omega)
        rcases grown with ⟨cut, grown⟩ | ⟨fills, filled⟩
        · rw [← arg] at grown
          rw [expandLoop_last loaded missing grown small, list _ (Nat.le_of_lt cut)] at returned
          cases returned
          have fits := (List.forall_mem_append.mp (owned.fits bound)).1
          refine ⟨_, _, roundDb_loaded (fits_concat fits ⟨?_, ?_⟩),
            stale.grownBy owned following free stored⟩
          · dsimp only
            omega
          · dsimp only
            omega
        · rw [← arg] at filled
          rw [expandLoop_round loaded missing filled nonempty (by omega), list _ (le_refl _),
            show blockCount (init ++ [last]) + next.length =
              blockCount (init ++ [⟨last.offset, last.length + next.length⟩]) by
                simp only [blockCount_append, blockCount_singleton]; omega] at returned
          have owned' := owned.filledUp stored notFree le following free
          exact ih owned' (stale.filledUp owned following free stored)
            (roundDb_loaded (owned'.fits bound)) returned
    · rw [expandLoop_done _ _ _ _ _ _ done] at returned
      cases returned
      exact ⟨inode, l, loaded, stale.disagrees⟩

/-! ## Rounds that lose no blocks -/

/-- The extents are a partition of the device, and each entry of the list is one of them. -/
structure Agreed (a : Allocator) (N : Nat) (l : List FileExtent) : Prop where
  inv : a.Inv N
  allocated : ∀ e ∈ l, a.Allocated e.offset e.length
  nodup : (l.map FileExtent.offset).Nodup

theorem Agreed.owned (agreed : Agreed a N l) : Owned a N l := by
  refine ⟨agreed.inv.loose, ?_, ?_, agreed.nodup⟩
  · intro e member
    obtain ⟨x, stored, notFree, length⟩ := agreed.allocated e member
    exact ⟨x, stored, notFree, Nat.le_of_eq length⟩
  · intro e member
    obtain ⟨x, stored, -, length⟩ := agreed.allocated e member
    have inside := agreed.inv.le stored
    omega

/-- The file has no more blocks than the device. -/
theorem Agreed.blockCount_le (agreed : Agreed a N l) : blockCount l ≤ N := by
  have distinct := agreed.nodup
  rw [List.Nodup, List.pairwise_map] at distinct
  rw [← total_blockSegments]
  refine total_le ?_ ?_
  · rw [blockSegments, List.pairwise_map]
    refine distinct.imp_of_mem ?_
    intro e e' member member' different
    exact agreed.inv.disjoint_of_allocated (agreed.allocated e member)
      (agreed.allocated e' member') different
  · intro s member
    obtain ⟨e, inList, rfl⟩ := List.mem_map.mp member
    exact agreed.owned.inside e inList

/-- What a round that added `n` blocks did. -/
structure GrowRound (a a' : Allocator) (N : Nat) (l l' : List FileExtent) (n : Nat) : Prop where
  agreed : Agreed a' N l'
  positive : 0 < n
  count : blockCount l' = blockCount l + n
  isPrefix : IsPrefix (blockSegments l) (blockSegments l')
  wasFree : ∀ {i block}, blockCount l ≤ i → locate (blockSegments l') i = some block →
    a.FreeBlock block
  stillFree : ∀ {block}, a'.FreeBlock block → a.FreeBlock block
  freeBlocks : a.freeBlocks = a'.freeBlocks + n

/-- The free blocks after a reservation were free before it. -/
theorem Reserved.freeBlock {lastExtent : Option FileExtent} {n offset block : Nat}
    (reserved : Reserved a a' N size lastExtent n offset) (free : a'.FreeBlock block) :
    a.FreeBlock block := by
  obtain ⟨o, e, stored, isFree, low, high⟩ := free
  obtain ⟨o', e', stored', isFree', le, ends⟩ := reserved.free stored isFree
  exact ⟨o', e', stored', isFree', by omega, by omega⟩

section AgreedRounds

variable {offset : Nat} {e x next : Extent} {init : List FileExtent} {last : FileExtent}

theorem GrowRound.of_fresh (agreed : Agreed a N l) (positive : 0 < size)
    (stored : a.extents.get offset = some e) (free : e.status = .free) :
    ∃ n a', reservedFresh a offset e size true = (n, some offset, a') ∧ n ≤ size ∧
      GrowRound a a' N l (l ++ [⟨offset, n⟩]) n := by
  have reserved := Reserved.of_fresh agreed.inv positive l.getLast? stored free
  have other := agreed.owned.offset_ne stored free
  have part : (reservedFresh a offset e size true).1 ≤ e.length := by
    unfold reservedFresh
    dsimp only
    split <;> dsimp only <;> omega
  obtain ⟨n, a', result⟩ : ∃ n a', reservedFresh a offset e size true = (n, some offset, a') := by
    unfold reservedFresh
    dsimp only
    split
    · exact ⟨_, _, rfl⟩
    · exact ⟨_, _, rfl⟩
  rw [result] at reserved part
  refine ⟨n, a', result, reserved.le, ⟨reserved.inv, ?_, ?_⟩, reserved.positive, ?_, ?_, ?_,
    reserved.freeBlock, reserved.freeBlocks⟩
  · intro e' member
    rcases List.mem_append.mp member with old | new
    · obtain ⟨y, found, notFree, length⟩ := agreed.allocated e' old
      exact ⟨y, reserved.kept found notFree (other e' old), notFree, length⟩
    · rw [List.mem_singleton.mp new]
      rcases reserved.place with ⟨-, committed⟩ | ⟨last, isLast, same, -⟩
      · exact committed.allocated
      · exact absurd same (other last (List.mem_of_getLast? isLast))
  · exact nodup_concat agreed.nodup other n
  · rw [blockCount_append, blockCount_singleton]
  · rw [blockSegments_append]
    exact .append _ _
  · intro i block above located
    rw [blockSegments_append, locate_append_right (by rw [total_blockSegments]; exact above)]
      at located
    simp only [blockSegments, List.map_cons, List.map_nil, FileExtent.segment, locate] at located
    split at located
    · cases located
      exact ⟨offset, e, stored, free, by omega, by omega⟩
    · cases located

theorem GrowRound.of_grownBy (agreed : Agreed a N (init ++ [last])) (positive : 0 < size)
    (stored : a.extents.get last.offset = some x) (notFree : x.status ≠ .free)
    (following : a.extents.get (last.offset + last.length) = some next)
    (free : next.status = .free) (cut : size < next.length) :
    GrowRound a (grownBy a last x next size) N (init ++ [last])
      (init ++ [⟨last.offset, last.length + size⟩]) size := by
  have length : x.length = last.length := by
    obtain ⟨y, found, -, length⟩ := agreed.allocated last (by simp)
    rw [stored] at found
    cases found
    exact length
  have same : grownBy a last x next size =
      reservedInPlace a last.offset x next.length (last.length + size) true := by
    simp only [grownBy, reservedInPlace, length, if_true]
  have reserved := Reserved.of_inPlace agreed.inv positive
    (show last ∈ (init ++ [last]).getLast? by simp) stored notFree length following free cut
  rw [← same] at reserved
  have distinct := agreed.nodup
  rw [List.map_append, List.nodup_append] at distinct
  refine ⟨⟨reserved.inv, ?_, ?_⟩, positive, ?_, ?_, ?_, reserved.freeBlock, reserved.freeBlocks⟩
  · intro e' member
    rcases List.mem_append.mp member with old | new
    · obtain ⟨y, found, isUsed, lengthEq⟩ := agreed.allocated e' (List.mem_append_left _ old)
      have other := distinct.2.2 _ (List.mem_map_of_mem old) _ (show last.offset ∈ _ by simp)
      exact ⟨y, reserved.kept found isUsed other, isUsed, lengthEq⟩
    · rw [List.mem_singleton.mp new]
      exact ⟨_, get_put_self _ _ _, committed_ne_free, by rw [length]⟩
  · simpa using agreed.nodup
  · simp only [blockCount_append, blockCount_singleton]
    omega
  · rw [blockSegments_append, blockSegments_append]
    exact .grow_last _ _ _ _
  · intro i block above located
    rw [blockCount_append, blockCount_singleton] at above
    rw [blockSegments_append, locate_append_right (by rw [total_blockSegments]; omega)] at located
    simp only [blockSegments, List.map_cons, List.map_nil, FileExtent.segment, locate] at located
    split at located
    · rename_i inside
      have start := total_blockSegments init
      simp only [blockSegments] at start
      cases located
      exact ⟨_, next, following, free, by omega, by omega⟩
    · cases located

end AgreedRounds

/-- A reservation that does not use up the free extent behind the last one. -/
theorem round_of_reserveOk (agreed : Agreed a N l) (bound : N < 2 ^ 64) (positive : 0 < size)
    (small : size < 2 ^ 64) (noWrap : ∀ last ∈ l.getLast?, last.length + size < 2 ^ 64)
    (ok : ReserveOk a size l.getLast?) :
    (mtlReserveExtent a size l.getLast? true = some (0, none, a) ∧ a.freeBlocks = 0) ∨
      ∃ n offset a', mtlReserveExtent a size l.getLast? true = some (n, some offset, a') ∧
        n ≤ size ∧ GrowRound a a' N l (assigned l ⟨offset, n⟩) n := by
  rcases mtlReserveExtent_owned agreed.owned bound small noWrap with
    none | ⟨offset, e, stored, free, fresh⟩ |
      ⟨init, last, x, next, rfl, stored, notFree, -, following, free, grown⟩
  · exact Or.inl none
  · obtain ⟨n, a', result, le, round⟩ := GrowRound.of_fresh agreed positive stored free
    rw [result] at fresh
    rw [← agreed.owned.assigned_fresh n stored free] at round
    exact Or.inr ⟨n, offset, a', fresh, le, round⟩
  · have isLast : last ∈ (init ++ [last]).getLast? := by simp
    have short := noWrap last isLast
    have cut := (ok last isLast next following free).2
    rw [u64_of_lt short] at cut
    have fits : size < next.length := by omega
    rcases grown with ⟨-, grown⟩ | ⟨fills, -⟩
    · have round := GrowRound.of_grownBy agreed positive stored notFree following free fits
      rw [← assigned_of_last (agreed.owned.pos (by simp)) short] at round
      exact Or.inr ⟨size, last.offset, _, grown, le_refl _, round⟩
    · omega

/-- A reservation that uses up the free extent behind the last one. -/
theorem stale_of_not_reserveOk (agreed : Agreed a N l) (bound : N < 2 ^ 64) (positive : 0 < size)
    (small : size < 2 ^ 64) (noWrap : ∀ last ∈ l.getLast?, last.length + size < 2 ^ 64)
    (fails : ¬ ReserveOk a size l.getLast?) :
    ∃ n offset a', mtlReserveExtent a size l.getLast? true = some (n, some offset, a') ∧ 0 < n ∧
      n ≤ size ∧ Owned a' N (assigned l ⟨offset, n⟩) ∧ Stale a' (assigned l ⟨offset, n⟩) ∧
      blockCount (assigned l ⟨offset, n⟩) = blockCount l + n := by
  simp only [ReserveOk, not_forall] at fails
  obtain ⟨last, isLast, next, following, free, fails⟩ := fails
  obtain ⟨init, rfl⟩ := List.getLast?_eq_some_iff.mp isLast
  obtain ⟨x, stored, notFree, length⟩ := agreed.allocated last (by simp)
  have short := noWrap last isLast
  have inside := agreed.inv.le following
  have nonempty := agreed.inv.pos following
  have lastPos := agreed.owned.pos (show last ∈ init ++ [last] by simp)
  rw [u64_of_lt short] at fails
  have fills : next.length ≤ size := by omega
  have list : assigned (init ++ [last]) ⟨last.offset, next.length⟩ =
      init ++ [⟨last.offset, last.length + next.length⟩] := assigned_of_last lastPos (by omega)
  have lengthEq : u64 (x.length + next.length) = x.length + next.length := u64_of_lt (by omega)
  have totalEq : u64 (x.length + size) = x.length + size := u64_of_lt (by omega)
  have resultEq : u64 (x.length + next.length + 2 ^ 64 - x.length) = next.length := by
    unfold u64
    omega
  have notCut : ¬ x.length + size < x.length + next.length := by omega
  refine ⟨next.length, last.offset, filledUp a last x next, ?_, nonempty, fills, ?_, ?_, ?_⟩
  · rw [List.getLast?_concat, mtlReserveExtent_of_followed agreed.inv.loose bound size true lastPos
      stored following free]
    simp only [handOut, splitCandidate, lengthEq, totalEq, if_neg notCut, resultEq]
    rfl
  · rw [list]
    exact agreed.owned.filledUp stored notFree (by omega) following free
  · rw [list]
    exact ⟨_, List.mem_append_right _ (List.mem_singleton_self _), _, get_put_self _ _ _,
      committed_ne_free, by dsimp only; omega⟩
  · rw [list]
    simp only [blockCount_append, blockCount_singleton]
    omega

/-! ## The contract -/

/-- What growing the file with the extents `l` to hold `bytes` bytes is to do. -/
def GrowContract (metadata : StorageMetadata) (db : Db) (id : Nat) (l : List FileExtent)
    (bytes : Nat) : Prop :=
  (blocksFor metadata.blockSize bytes - blockCount l ≤ db.allocator.freeBlocks →
      ∃ db' inode' l', mtlExpandInode metadata db id l bytes = some db' ∧
        mtlLoadFile db' id = some (inode', l') ∧
        blockCount l' = max (blockCount l) (blocksFor metadata.blockSize bytes) ∧
        IsPrefix (blockSegments l) (blockSegments l') ∧
        (∀ {i block}, blockCount l ≤ i → locate (blockSegments l') i = some block →
          db.allocator.FreeBlock block) ∧
        ∀ e ∈ l', db'.allocator.Allocated e.offset e.length) ∧
    (db.allocator.freeBlocks < blocksFor metadata.blockSize bytes - blockCount l →
      AssertFails metadata id bytes (blocksFor metadata.blockSize bytes - blockCount l) db
        (blockCount l) (l.getLastD ⟨0, 0⟩))

section Loop

variable (bound : N < 2 ^ 64) (small : blocksFor metadata.blockSize bytes < 2 ^ 64)

include bound small

/-- The loop adds the missing blocks, if no round uses up a free extent in place. -/
theorem expandLoop_of_growOk {fuel : Nat} (agreed : Agreed db.allocator N l)
    (loaded : mtlLoadFile db id = some (inode, l))
    (enough : blocksFor metadata.blockSize bytes - blockCount l ≤ fuel)
    (free : blocksFor metadata.blockSize bytes - blockCount l ≤ db.allocator.freeBlocks)
    (ok : GrowOk fuel db.allocator (l.getLastD ⟨0, 0⟩)
      (blocksFor metadata.blockSize bytes - blockCount l)) :
    ∃ db' inode' l',
      expandLoop metadata id bytes fuel db (blockCount l) (l.getLastD ⟨0, 0⟩) = some db' ∧
      mtlLoadFile db' id = some (inode', l') ∧
      blockCount l' = max (blockCount l) (blocksFor metadata.blockSize bytes) ∧
      IsPrefix (blockSegments l) (blockSegments l') ∧
      (∀ {i block}, blockCount l ≤ i → locate (blockSegments l') i = some block →
        db.allocator.FreeBlock block) ∧
      ∀ e ∈ l', db'.allocator.Allocated e.offset e.length := by
  induction fuel generalizing db inode l with
  | zero =>
    refine ⟨db, inode, l, expandLoop_done _ _ _ _ _ _ (by omega), loaded, by omega, .refl _, ?_,
      agreed.allocated⟩
    intro i block above located
    have below := lt_total located
    rw [total_blockSegments] at below
    omega
  | succ fuel ih =>
    rcases Nat.lt_or_ge (blockCount l) (blocksFor metadata.blockSize bytes) with missing | done
    · have noWrap := last_add_lt missing small
      have arg := agreed.owned.lastExtentArg
      obtain ⟨reserveOk, later⟩ := ok (by omega)
      rw [arg] at reserveOk
      rcases round_of_reserveOk agreed bound (by omega) (by omega) noWrap reserveOk with
        ⟨-, noBlocks⟩ | ⟨n, offset, a', returned, le, round⟩
      · omega
      · have positive := round.positive
        have count := round.count
        have left := round.freeBlocks
        have fits := round.agreed.owned.fits bound
        rw [← arg] at returned
        have need : blocksFor metadata.blockSize bytes - blockCount l - n =
            blocksFor metadata.blockSize bytes - blockCount (assigned l ⟨offset, n⟩) := by omega
        have ok' := later _ returned offset rfl
        rw [← getLastD_assigned] at ok'
        dsimp only at ok'
        rw [need] at ok'
        rw [expandLoop_round loaded missing returned positive (by omega), ← count]
        obtain ⟨db', inode', l', finished, loaded', total, initial, wasFree, allocated⟩ :=
          @ih (roundDb metadata db id bytes inode (assigned l ⟨offset, n⟩)
            (blockCount (assigned l ⟨offset, n⟩)) a') _ _ round.agreed (roundDb_loaded fits)
            (by omega) (by change _ ≤ a'.freeBlocks; omega) ok'
        refine ⟨db', inode', l', finished, loaded', by omega, round.isPrefix.trans initial, ?_,
          allocated⟩
        intro i block above located
        rcases Nat.lt_or_ge i (blockCount (assigned l ⟨offset, n⟩)) with here | further
        · rw [← initial i (by rw [total_blockSegments]; exact here)] at located
          exact round.wasFree above located
        · exact round.stillFree (wasFree further located)
    · refine ⟨db, inode, l, expandLoop_done _ _ _ _ _ _ done, loaded, by omega, .refl _, ?_,
        agreed.allocated⟩
      intro i block above located
      have below := lt_total located
      rw [total_blockSegments] at below
      omega

/-- If the list agrees with the extents database in the end, no round used up a free extent in
place. -/
theorem growOk_of_agreed {fuel : Nat} (agreed : Agreed db.allocator N l)
    (loaded : mtlLoadFile db id = some (inode, l)) {db' : Db} {inode' : Inode}
    {l' : List FileExtent}
    (returned : expandLoop metadata id bytes fuel db (blockCount l) (l.getLastD ⟨0, 0⟩) = some db')
    (loaded' : mtlLoadFile db' id = some (inode', l'))
    (allocated : ∀ e ∈ l', db'.allocator.Allocated e.offset e.length) :
    GrowOk fuel db.allocator (l.getLastD ⟨0, 0⟩)
      (blocksFor metadata.blockSize bytes - blockCount l) := by
  induction fuel generalizing db inode l with
  | zero => trivial
  | succ fuel ih =>
    intro missing
    have missing' : blockCount l < blocksFor metadata.blockSize bytes := by omega
    have noWrap := last_add_lt missing' small
    have arg := agreed.owned.lastExtentArg
    by_cases reserveOk : ReserveOk db.allocator (blocksFor metadata.blockSize bytes - blockCount l)
      l.getLast?
    · refine ⟨by rw [arg]; exact reserveOk, ?_⟩
      intro r result offset isOffset
      rcases round_of_reserveOk agreed bound missing (by omega) noWrap reserveOk with
        ⟨failed, -⟩ | ⟨n, offset', a', reserved, le, round⟩
      · rw [arg, failed] at result
        cases result
        cases isOffset
      · have count := round.count
        have fits := round.agreed.owned.fits bound
        rw [← arg] at reserved
        rw [reserved] at result
        cases result
        cases isOffset
        rw [expandLoop_round loaded missing' reserved round.positive (by omega), ← count] at returned
        have later := @ih (roundDb metadata db id bytes inode (assigned l ⟨offset, n⟩)
          (blockCount (assigned l ⟨offset, n⟩)) a') _ _ round.agreed (roundDb_loaded fits) returned
        rw [getLastD_assigned] at later
        have need : blocksFor metadata.blockSize bytes - blockCount l - n =
            blocksFor metadata.blockSize bytes - blockCount (assigned l ⟨offset, n⟩) := by omega
        dsimp only
        rw [need]
        exact later
    · -- The entry that this round leaves behind is never repaired.
      obtain ⟨n, offset, a', reserved, positive, le, owned', stale, count⟩ :=
        stale_of_not_reserveOk agreed bound missing (by omega) noWrap reserveOk
      rw [← arg] at reserved
      rw [expandLoop_round loaded missing' reserved positive (by omega), ← count] at returned
      have ownedDb : Owned (roundDb metadata db id bytes inode (assigned l ⟨offset, n⟩)
        (blockCount (assigned l ⟨offset, n⟩)) a').allocator N (assigned l ⟨offset, n⟩) := owned'
      obtain ⟨inode'', l'', loaded'', e, member, disagrees⟩ := expandLoop_of_stale ownedDb bound
        stale (roundDb_loaded (owned'.fits bound)) small returned
      rw [loaded'] at loaded''
      cases loaded''
      exact absurd (allocated e member) disagrees

end Loop

/-- From every state of the allocator that is a partition of the device, growing a file of allocated
extents meets the contract exactly if there are not enough free blocks or no round of the loop
uses up the free extent behind the last extent. -/
theorem growContract_iff {metadata : StorageMetadata} {db : Db} {id bytes N : Nat} {inode : Inode}
    {l : List FileExtent} (inv : db.allocator.Inv N) (bound : N < 2 ^ 64)
    (positive : 0 < metadata.blockSize) (small : bytes < 2 ^ 64)
    (loaded : mtlLoadFile db id = some (inode, l))
    (allocated : ∀ e ∈ l, db.allocator.Allocated e.offset e.length)
    (nodup : (l.map FileExtent.offset).Nodup) :
    GrowContract metadata db id l bytes ↔
      (blocksFor metadata.blockSize bytes - blockCount l ≤ db.allocator.freeBlocks →
        GrowOk (blocksFor metadata.blockSize bytes - blockCount l) db.allocator
          (l.getLastD ⟨0, 0⟩) (blocksFor metadata.blockSize bytes - blockCount l)) := by
  have agreed : Agreed db.allocator N l := ⟨inv, allocated, nodup⟩
  have blocks : blocksFor metadata.blockSize bytes < 2 ^ 64 :=
    Nat.lt_of_le_of_lt (blocksFor_le_self positive bytes) small
  have expand : mtlExpandInode metadata db id l bytes =
      expandLoop metadata id bytes (blocksFor metadata.blockSize bytes - blockCount l) db
        (blockCount l) (l.getLastD ⟨0, 0⟩) := by
    have count : u64 (l.map FileExtent.length).sum = blockCount l :=
      u64_of_lt (Nat.lt_of_le_of_lt agreed.blockCount_le bound)
    simp only [mtlExpandInode, count]
  constructor
  · rintro ⟨grows, -⟩ free
    obtain ⟨db', inode', l', returned, loaded', -, -, -, allocated'⟩ := grows free
    rw [expand] at returned
    exact growOk_of_agreed bound blocks agreed loaded returned loaded' allocated'
  · intro ok
    constructor
    · intro free
      rw [expand]
      exact expandLoop_of_growOk bound blocks agreed loaded (le_refl _) free (ok free)
    · intro short
      exact assertFails_of_short agreed.owned bound loaded blocks short short

/-- A store with one file in the first two blocks of `halfFull`. -/
def halfFullDb : Db :=
  mtlPutInode ⟨∅, halfFull, none⟩ 1 ⟨.file, 1024, 0, 0, 0, 0, 0, 0⟩ (extentBytes [⟨0, 2⟩])

theorem halfFullDb_loaded :
    mtlLoadFile halfFullDb 1 = some (⟨.file, 1024, 0, 0, 0, 0, 0, 0⟩, [⟨0, 2⟩]) :=
  mtlLoadFile_put_self (by simp [FileExtent.Fits])

theorem halfFullDb_allocated :
    ∀ e ∈ [(⟨0, 2⟩ : FileExtent)], halfFullDb.allocator.Allocated e.offset e.length := by
  intro e member
  rw [List.mem_singleton.mp member]
  exact ⟨_, rfl, committed_ne_free, rfl⟩

theorem growContract_halfFull : GrowContract ⟨5, 512⟩ halfFullDb 1 [⟨0, 2⟩] 2000 := by
  refine (growContract_iff halfFull_inv (by decide) (by decide) (by decide) halfFullDb_loaded
    halfFullDb_allocated (by simp)).mpr ?_
  decide

/-- Growing the file by all the free blocks leaves an entry of five blocks for an extent of two. -/
theorem not_growContract_halfFull : ¬ GrowContract ⟨5, 512⟩ halfFullDb 1 [⟨0, 2⟩] 2560 := by
  rintro ⟨grows, -⟩
  obtain ⟨db', inode', l', returned, loaded', -, -, -, allocated'⟩ := grows (by decide)
  have agreed : Agreed halfFullDb.allocator 5 [⟨0, 2⟩] :=
    ⟨halfFull_inv, halfFullDb_allocated, by simp⟩
  have ok := growOk_of_agreed (by decide) (by decide) agreed halfFullDb_loaded returned loaded'
    allocated'
  revert ok
  decide

end MetalFs
