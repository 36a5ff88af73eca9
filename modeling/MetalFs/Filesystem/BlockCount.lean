import MetalFs.Filesystem.Directory
import MetalFs.Filesystem.GrowContract
import MetalFs.Filesystem.MetalCreate
import MetalFs.Filesystem.ShrinkContract

/-!
# The blocks of a file and its length

`Db.Counted` says that the extents of every file are non-empty and that there are exactly as many
blocks as its length needs.  Whatever the allocator has done to its databases, the operations keep
this as long as no 64-bit sum wraps around: the bytes of the blocks a file is grown to, and the
length of two extents that are joined.
-/

namespace MetalFs

open OrderedStore

/-! ## The allocator in any state -/

/-- The recorded lengths are 64-bit values. -/
structure Allocator.Small (a : Allocator) : Prop where
  lt : ∀ {offset e}, a.extents.get offset = some e → e.length < 2 ^ 64

variable {a a' : Allocator} {offset n size : Nat} {e x next : Extent}

theorem Allocator.Small.put (small : a.Small) (length : e.length < 2 ^ 64) (heap : Heap) :
    Allocator.Small ⟨a.extents.put offset e, heap⟩ := by
  constructor
  intro o y stored
  simp only [get_put] at stored
  split at stored
  · cases stored
    exact length
  · exact small.lt stored

theorem Allocator.Small.del (small : a.Small) (heap : Heap) :
    Allocator.Small ⟨a.extents.del offset, heap⟩ := by
  constructor
  intro o y stored
  simp only [get_del] at stored
  split at stored
  · cases stored
  · exact small.lt stored

/-- What the first half of a reservation can come to: no extent, one from the heap, or the last one
with the free one behind it. -/
theorem extendLastExtent_result {last : FileExtent} {candidate : Option Candidate}
    (returned : extendLastExtent a last = some (candidate, a')) :
    (candidate = none ∧ a' = a) ∨
      ∃ x next heap, candidate = some ⟨last.offset, x, x.length, next.length⟩ ∧
        a.extents.get last.offset = some x ∧
        a.extents.get (u64 (last.offset + last.length)) = some next ∧ next.status = .free ∧
        a' = ⟨a.extents.del (u64 (last.offset + last.length)), heap⟩ := by
  unfold extendLastExtent at returned
  dsimp only at returned
  split at returned
  · cases returned
    exact Or.inl ⟨rfl, rfl⟩
  · rename_i next following
    split at returned
    · rename_i free
      split at returned
      · rename_i heap deleted
        split at returned
        · cases returned
        · rename_i x stored
          cases returned
          rw [get_del] at stored
          split at stored
          · cases stored
          · exact Or.inr ⟨x, next, heap, rfl, stored, following, free, rfl⟩
      · cases returned
    · cases returned
      exact Or.inl ⟨rfl, rfl⟩

theorem popFreeExtent_result {candidate : Option Candidate}
    (returned : popFreeExtent a = some (candidate, a')) :
    a'.extents = a.extents ∧ (candidate = none ∨
      ∃ offset e, candidate = some ⟨offset, e, 0, 0⟩ ∧ a.extents.get offset = some e) := by
  unfold popFreeExtent at returned
  split at returned
  · cases returned
    exact ⟨rfl, Or.inl rfl⟩
  · cases returned
  · split at returned
    · cases returned
    · rename_i e stored
      cases returned
      exact ⟨rfl, Or.inr ⟨_, e, rfl, stored⟩⟩

/-- The length of the extent that is handed out does not wrap around. -/
def JoinOk (a : Allocator) (lastExtent : Option FileExtent) : Prop :=
  ∀ last ∈ lastExtent, ∀ x ∈ a.extents.get last.offset,
    ∀ next ∈ a.extents.get (u64 (last.offset + last.length)), next.status = .free →
      x.length + next.length < 2 ^ 64

theorem splitCandidate_small (small : a.Small) {c : Candidate} (length : c.extent.length < 2 ^ 64)
    (size : Nat) (commit : Bool) : (splitCandidate a c size commit).2.2.Small := by
  have joined := u64_lt (c.extent.length + c.appendExtentLength)
  have total := u64_lt (c.originalExtentLength + size)
  unfold splitCandidate
  dsimp only [mtlHeapInsert]
  split
  · have rest : a.Small := small
    exact (rest.put (by dsimp only; omega) a.heap).put (by dsimp only; exact total) _
  · exact small.put (by dsimp only; exact length) a.heap

theorem splitCandidate_le {c : Candidate} (sizeSmall : size < 2 ^ 64)
    (joined : c.extent.length + c.appendExtentLength < 2 ^ 64)
    (original : c.originalExtentLength = c.extent.length ∨
      c.originalExtentLength = 0 ∧ c.appendExtentLength = 0) (commit : Bool) :
    (splitCandidate a c size commit).1 ≤ size := by
  have lengthEq : u64 (c.extent.length + c.appendExtentLength) =
      c.extent.length + c.appendExtentLength := u64_of_lt joined
  unfold splitCandidate
  dsimp only [mtlHeapInsert]
  rw [lengthEq]
  split
  · dsimp only
    unfold u64 at *
    omega
  · dsimp only
    unfold u64 at *
    omega

/-- Where the extent that a reservation hands out comes from. -/
theorem mtlReserveExtent_result {lastExtent : Option FileExtent} {commit : Bool} {o : Option Nat}
    (returned : mtlReserveExtent a size lastExtent commit = some (n, o, a')) :
    (n = 0 ∧ a'.extents = a.extents) ∨
      ∃ a₁ c, splitCandidate a₁ c size commit = (n, c.extentOffset, a') ∧
        ((∃ offset e, c = ⟨offset, e, 0, 0⟩ ∧ a.extents.get offset = some e ∧
            a₁.extents = a.extents) ∨
          ∃ last ∈ lastExtent, ∃ x next, c = ⟨last.offset, x, x.length, next.length⟩ ∧
            a.extents.get last.offset = some x ∧
            a.extents.get (u64 (last.offset + last.length)) = some next ∧ next.status = .free ∧
            a₁.extents = a.extents.del (u64 (last.offset + last.length))) := by
  have handed : ∀ {a₁ c}, some (handOut a₁ (some c) size commit) = some (n, o, a') →
      splitCandidate a₁ c size commit = (n, c.extentOffset, a') := by
    intro a₁ c result
    simp only [handOut, Option.some.injEq, Prod.mk.injEq] at result
    obtain ⟨rfl, -, rfl⟩ := result
    unfold splitCandidate
    dsimp only
    split <;> rfl
  have popped : (popFreeExtent a).bind (fun r => some (handOut r.2 r.1 size commit)) =
      some (n, o, a') → (n = 0 ∧ a'.extents = a.extents) ∨
        ∃ a₁ c, splitCandidate a₁ c size commit = (n, c.extentOffset, a') ∧
          ∃ offset e, c = ⟨offset, e, 0, 0⟩ ∧ a.extents.get offset = some e ∧
            a₁.extents = a.extents := by
    intro result
    obtain ⟨⟨candidate, a₂⟩, pop, result⟩ := Option.bind_eq_some_iff.mp result
    obtain ⟨same, rfl | ⟨offset, e, rfl, stored⟩⟩ := popFreeExtent_result pop
    · cases result
      exact Or.inl ⟨rfl, same⟩
    · exact Or.inr ⟨a₂, _, handed result, offset, e, rfl, stored, same⟩
  cases lastExtent with
  | none =>
    rcases popped returned with none | ⟨a₁, c, split, found⟩
    · exact Or.inl none
    · exact Or.inr ⟨a₁, c, split, Or.inl found⟩
  | some last =>
    obtain ⟨⟨candidate, a₁⟩, extended, rest⟩ := Option.bind_eq_some_iff.mp returned
    rcases extendLastExtent_result extended with
      ⟨rfl, rfl⟩ | ⟨x, next, heap, rfl, stored, following, free, rfl⟩
    · rcases popped rest with none | ⟨a₁, c, split, found⟩
      · exact Or.inl none
      · exact Or.inr ⟨a₁, c, split, Or.inl found⟩
    · exact Or.inr ⟨_, _, handed rest, Or.inr ⟨last, rfl, x, next, rfl, stored, following, free, rfl⟩⟩

/-- A reservation returns no more than was asked for, if the lengths it joins do not wrap. -/
theorem mtlReserveExtent_le (small : a.Small) (sizeSmall : size < 2 ^ 64)
    {lastExtent : Option FileExtent} (joins : JoinOk a lastExtent) {commit : Bool}
    {o : Option Nat} (returned : mtlReserveExtent a size lastExtent commit = some (n, o, a')) :
    n ≤ size := by
  rcases mtlReserveExtent_result returned with ⟨rfl, -⟩ | ⟨a₁, c, split, found⟩
  · exact Nat.zero_le _
  · have result : n = (splitCandidate a₁ c size commit).1 := by rw [split]
    rw [result]
    rcases found with ⟨offset, e, rfl, stored, -⟩ |
      ⟨last, isLast, x, next, rfl, stored, following, free, -⟩
    · have short := small.lt stored
      exact splitCandidate_le sizeSmall (by dsimp only; omega) (Or.inr ⟨rfl, rfl⟩) commit
    · exact splitCandidate_le sizeSmall (joins last isLast x stored next following free)
        (Or.inl rfl) commit

theorem mtlReserveExtent_small (small : a.Small) {lastExtent : Option FileExtent} {commit : Bool}
    {o : Option Nat} (returned : mtlReserveExtent a size lastExtent commit = some (n, o, a')) :
    a'.Small := by
  rcases mtlReserveExtent_result returned with ⟨-, same⟩ | ⟨a₁, c, split, found⟩
  · exact ⟨fun stored => small.lt (same ▸ stored)⟩
  · have result : a' = (splitCandidate a₁ c size commit).2.2 := by rw [split]
    rw [result]
    rcases found with ⟨offset, e, rfl, stored, same⟩ |
      ⟨last, isLast, x, next, rfl, stored, following, free, same⟩
    · exact splitCandidate_small ⟨fun found => small.lt (same ▸ found)⟩ (small.lt stored) _ _
    · have deleted : Allocator.Small
          ⟨a.extents.del (u64 (last.offset + last.length)), a₁.heap⟩ := small.del a₁.heap
      exact splitCandidate_small ⟨fun found => deleted.lt (same ▸ found)⟩ (small.lt stored) _ _

theorem mtlFreeExtent_small (small : a.Small) (returned : mtlFreeExtent a offset = some a') :
    a'.Small := by
  obtain ⟨e, stored, freed⟩ := Option.bind_eq_some_iff.mp returned
  cases freed
  have first : (mergeFollowing a offset e.length).1 < 2 ^ 64 ∧
      (mergeFollowing a offset e.length).2.Small := by
    unfold mergeFollowing
    split
    · exact ⟨small.lt stored, small⟩
    · split
      · exact ⟨u64_lt _, small.del _⟩
      · exact ⟨small.lt stored, small⟩
  have second : ∀ {b : Allocator} {m : Nat}, m < 2 ^ 64 → b.Small →
      (mergePrevious b offset m).2.1 < 2 ^ 64 ∧ (mergePrevious b offset m).2.2.2.Small := by
    intro b m length smallB
    unfold mergePrevious
    split
    · exact ⟨length, smallB⟩
    · split
      · exact ⟨u64_lt _, smallB.del _⟩
      · exact ⟨length, smallB⟩
  obtain ⟨length, kept⟩ := second first.1 first.2
  exact kept.put (by dsimp only; exact length) _

theorem mtlTruncateExtent_small (small : a.Small) {len : Nat} (length : len < 2 ^ 64)
    (returned : mtlTruncateExtent a offset len = some a') : a'.Small := by
  unfold mtlTruncateExtent at returned
  split at returned
  · exact mtlFreeExtent_small small returned
  · obtain ⟨e, stored, rest⟩ := Option.bind_eq_some_iff.mp returned
    have recorded := small.lt stored
    have committed : Allocator.Small
        ⟨a.extents.put offset { e with status := .committed, length := len }, a.heap⟩ :=
      small.put length a.heap
    dsimp only at rest
    split at rest
    · exact mtlFreeExtent_small (committed.put (by dsimp only; omega) a.heap) rest
    · cases rest
      exact committed

/-! ## Growing -/

/-- The extents are non-empty and have as many blocks as `length` bytes need. -/
structure CountOk (blockSize length : Nat) (l : List FileExtent) : Prop where
  length_lt : length < 2 ^ 64
  pos : ∀ e ∈ l, 0 < e.length
  count : blockCount l = blocksFor blockSize length

/-- No reservation of the loop in `mtl_expand_inode` joins lengths that wrap around. -/
def RoundsJoin : Nat → Allocator → FileExtent → Nat → Prop
  | 0, _, _, _ => True
  | fuel + 1, a, last, need =>
    0 < need → JoinOk a (lastExtentArg last) ∧
      ∀ r ∈ mtlReserveExtent a need (lastExtentArg last) true, ∀ offset ∈ r.2.1,
        RoundsJoin fuel r.2.2 (growLastExtent last ⟨offset, r.1⟩) (need - r.1)

section Lists

variable {l : List FileExtent} {newExtent last : FileExtent}

theorem wrap_length {e : FileExtent} (small : e.length < 2 ^ 64) : e.wrap.length = e.length :=
  Nat.mod_eq_of_lt small

theorem length_le_blockCount {e : FileExtent} (member : e ∈ l) : e.length ≤ blockCount l :=
  List.single_le_sum (fun _ _ => Nat.zero_le _) _ (List.mem_map_of_mem member)

theorem blockCount_wrap (small : blockCount l < 2 ^ 64) :
    blockCount (l.map FileExtent.wrap) = blockCount l := by
  unfold blockCount
  rw [List.map_map]
  congr 1
  refine List.map_congr_left ?_
  intro e member
  have le := length_le_blockCount member
  exact wrap_length (by omega)

theorem pos_wrap (small : blockCount l < 2 ^ 64) (pos : ∀ e ∈ l, 0 < e.length) :
    ∀ e ∈ l.map FileExtent.wrap, 0 < e.length := by
  intro e member
  obtain ⟨e', inList, rfl⟩ := List.mem_map.mp member
  have le := length_le_blockCount inList
  rw [wrap_length (by omega)]
  exact pos e' inList

/-- The length of the last extent, or 0 if there is none. -/
def lastLength (l : List FileExtent) : Nat := (l.getLastD ⟨0, 0⟩).length

theorem lastLength_concat (init : List FileExtent) (last : FileExtent) :
    lastLength (init ++ [last]) = last.length := by
  rw [lastLength, List.getLastD_concat]

theorem lastLength_wrap (small : blockCount l < 2 ^ 64) :
    lastLength (l.map FileExtent.wrap) = lastLength l := by
  rcases List.eq_nil_or_concat l with rfl | ⟨init, last, rfl⟩
  · rfl
  · rw [List.concat_eq_append] at small ⊢
    have le := length_le_blockCount (show last ∈ init ++ [last] by simp)
    rw [List.map_append, List.map_singleton, lastLength_concat, lastLength_concat,
      wrap_length (by omega)]

end Lists

section Growing

variable {metadata : StorageMetadata} {db db' : Db} {id bytes : Nat} {inode : Inode}
  {l : List FileExtent} {lastExtent : FileExtent}

/-- The file gets `n` more blocks, in a new extent or in the last one. -/
theorem assignExtent_counted (loaded : mtlLoadFile db id = some (inode, l))
    (last : lastExtent.length = lastLength l) (pos : ∀ e ∈ l, 0 < e.length) (positive : 0 < n)
    (small : blockCount l + n < 2 ^ 64) {newLength : Nat}
    (returned : assignExtent db id lastExtent ⟨offset, n⟩ newLength = some db') :
    ∃ l', db' = mtlPutInode db id { inode with length := newLength } (extentBytes l') ∧
      (∀ e ∈ l', 0 < e.length) ∧ blockCount l' = blockCount l + n ∧
      (growLastExtent lastExtent ⟨offset, n⟩).length = lastLength l' := by
  unfold assignExtent at returned
  unfold growLastExtent
  by_cases grown : lastExtent.length ≠ 0 ∧ lastExtent.offset = offset
  · rw [if_pos grown] at returned ⊢
    rcases List.eq_nil_or_concat l with rfl | ⟨init, final, rfl⟩
    · exact absurd last grown.1
    · rw [List.concat_eq_append] at loaded last pos small ⊢
      rw [lastLength_concat] at last
      rw [blockCount_append, blockCount_singleton] at small ⊢
      have lengthEq : u64 (lastExtent.length + n) = final.length + n := by
        rw [last]
        exact u64_of_lt (by omega)
      simp only [mtlExtendLastExtentInFile, loaded, Option.bind_eq_bind, Option.bind_some,
        List.append_eq_nil_iff, List.cons_ne_nil, and_false, if_false, List.dropLast_concat,
        growLastExtent, if_pos grown, Option.some.injEq] at returned
      refine ⟨_, returned.symm, ?_, ?_, ?_⟩
      · intro e member
        rcases List.mem_append.mp member with old | new
        · exact pos e (List.mem_append_left _ old)
        · rw [List.mem_singleton.mp new]
          dsimp only
          omega
      · rw [blockCount_append, blockCount_singleton]
        dsimp only
        omega
      · rw [lastLength_concat]
  · rw [if_neg grown] at returned ⊢
    simp only [mtlAddExtentToFile, loaded, Option.bind_eq_bind, Option.bind_some,
      Option.some.injEq] at returned
    refine ⟨_, returned.symm, ?_, ?_, ?_⟩
    · intro e member
      rcases List.mem_append.mp member with old | new
      · exact pos e old
      · rw [List.mem_singleton.mp new]
        exact positive
    · rw [blockCount_append, blockCount_singleton]
    · rw [lastLength_concat]

theorem assignExtent_put {newExtent : FileExtent} {newLength : Nat}
    (returned : assignExtent db id lastExtent newExtent newLength = some db') :
    ∃ inode l l', mtlLoadFile db id = some (inode, l) ∧
      db' = mtlPutInode db id { inode with length := newLength } (extentBytes l') := by
  unfold assignExtent at returned
  split at returned
  · obtain ⟨⟨inode, l⟩, loaded, rest⟩ := Option.bind_eq_some_iff.mp returned
    dsimp only at rest
    split at rest
    · cases rest
    · cases rest
      exact ⟨inode, l, _, loaded, rfl⟩
  · obtain ⟨⟨inode, l⟩, loaded, rest⟩ := Option.bind_eq_some_iff.mp returned
    cases rest
    exact ⟨inode, l, _, loaded, rfl⟩

/-- Only the allocator and the inode are changed, which keeps its type. -/
structure Db.Touched (id : Nat) (db db' : Db) : Prop where
  allocator : db.allocator.Small → db'.allocator.Small
  frame : Db.Frame id db db'
  type : ∀ r' ∈ mtlLoadFile db' id, ∃ r ∈ mtlLoadFile db id, r'.1.type = r.1.type

theorem Db.Touched.trans {db'' : Db} (first : Db.Touched id db db') (second : Db.Touched id db' db'') :
    Db.Touched id db db'' := by
  refine ⟨fun small => second.allocator (first.allocator small), first.frame.trans second.frame, ?_⟩
  intro r'' found
  obtain ⟨r', found', same'⟩ := second.type r'' found
  obtain ⟨r, found'', same⟩ := first.type r' found'
  exact ⟨r, found'', same'.trans same⟩

theorem Db.Touched.refl (id : Nat) (db : Db) : Db.Touched id db db :=
  ⟨fun small => small, .refl _ _, fun r' found => ⟨r', found, rfl⟩⟩

theorem Db.Touched.allocate (id : Nat) (db : Db) (kept : db.allocator.Small → a'.Small) :
    Db.Touched id db { db with allocator := a' } :=
  ⟨kept, ⟨fun _ _ => rfl, rfl⟩, fun r' found => ⟨r', found, rfl⟩⟩

theorem Db.Touched.put (loaded : mtlLoadFile db id = some (inode, l)) (length : Nat)
    (l' : List FileExtent) :
    Db.Touched id db (mtlPutInode db id { inode with length } (extentBytes l')) := by
  refine ⟨fun small => small, ⟨fun other different => mtlLoadInode_put_of_ne different, rfl⟩, ?_⟩
  intro r' found
  rw [mtlLoadFile_put] at found
  cases found
  exact ⟨_, loaded, rfl⟩

/-- Growing an inode changes the allocator and that inode only, which keeps its type. -/
theorem expandLoop_touched {fuel current : Nat}
    (returned : expandLoop metadata id bytes fuel db current lastExtent = some db') :
    Db.Touched id db db' := by
  induction fuel generalizing db current lastExtent with
  | zero =>
    rw [expandLoop] at returned
    split at returned
    · cases returned
    · cases returned
      exact .refl _ _
  | succ fuel ih =>
    rw [expandLoop] at returned
    split at returned
    · obtain ⟨⟨n, o, a'⟩, reserved, rest⟩ := Option.bind_eq_some_iff.mp returned
      dsimp only at rest
      split at rest
      · cases rest
      · simp only [Option.bind_eq_bind, Option.bind_eq_some_iff] at rest
        obtain ⟨offset, rfl, db₁, assigned, rest⟩ := rest
        obtain ⟨inode, l, l₁, loaded, rfl⟩ := assignExtent_put assigned
        have first := Db.Touched.allocate id db fun small => mtlReserveExtent_small small reserved
        exact (first.trans (.put loaded _ l₁)).trans (ih rest)
    · cases returned
      exact .refl _ _

/-- The loop of `mtl_expand_inode` gives the file as many blocks as are missing, or does not
return. -/
theorem expandLoop_counted {fuel : Nat} (allocator : db.allocator.Small)
    (small : blocksFor metadata.blockSize bytes < 2 ^ 64)
    (joins : RoundsJoin fuel db.allocator lastExtent
      (blocksFor metadata.blockSize bytes - blockCount l))
    (loaded : mtlLoadFile db id = some (inode, l)) (last : lastExtent.length = lastLength l)
    (pos : ∀ e ∈ l, 0 < e.length)
    (returned : expandLoop metadata id bytes fuel db (blockCount l) lastExtent = some db') :
    ∃ inode' l', mtlLoadFile db' id = some (inode', l') ∧ (∀ e ∈ l', 0 < e.length) ∧
      blockCount l' = max (blockCount l) (blocksFor metadata.blockSize bytes) ∧
      inode'.length = if blockCount l < blocksFor metadata.blockSize bytes then
        roundLength metadata.blockSize bytes (blocksFor metadata.blockSize bytes)
        else inode.length := by
  induction fuel generalizing db inode l lastExtent with
  | zero =>
    rw [expandLoop] at returned
    split at returned
    · cases returned
    · rename_i done
      cases returned
      exact ⟨inode, l, loaded, pos, by omega, by rw [if_neg done]⟩
  | succ fuel ih =>
    rw [expandLoop] at returned
    split at returned
    · rename_i missing
      obtain ⟨⟨n, o, a'⟩, reserved, rest⟩ := Option.bind_eq_some_iff.mp returned
      dsimp only at rest
      split at rest
      · cases rest
      · rename_i nonzero
        simp only [Option.bind_eq_bind, Option.bind_eq_some_iff] at rest
        obtain ⟨offset, rfl, db₁, assigned, rest⟩ := rest
        obtain ⟨join, later⟩ := joins (by omega)
        have le := mtlReserveExtent_le allocator (by omega) join reserved
        have currentEq : u64 (blockCount l + n) = blockCount l + n := u64_of_lt (by omega)
        rw [currentEq] at assigned rest
        have loaded' : mtlLoadFile { db with allocator := a' } id = some (inode, l) := loaded
        obtain ⟨l₁, rfl, pos₁, count₁, last₁⟩ :=
          assignExtent_counted loaded' last pos (by omega) (by omega) assigned
        have short : blockCount l₁ < 2 ^ 64 := by omega
        have count₂ : blockCount (l₁.map FileExtent.wrap) = blockCount l + n := by
          rw [blockCount_wrap short, count₁]
        rw [← count₂] at rest
        have joins' := later _ reserved offset rfl
        dsimp only at joins'
        rw [show blocksFor metadata.blockSize bytes - blockCount l - n =
          blocksFor metadata.blockSize bytes - blockCount (l₁.map FileExtent.wrap) by omega] at joins'
        obtain ⟨inode', l', final, pos', total, length⟩ :=
          ih (mtlReserveExtent_small allocator reserved) joins' (mtlLoadFile_put _ _ _ _)
            (by rw [last₁, lastLength_wrap short]) (pos_wrap short pos₁) rest
        refine ⟨inode', l', final, pos', by omega, ?_⟩
        rw [length, if_pos missing, count₂]
        split
        · rfl
        · rw [show blockCount l + n = blocksFor metadata.blockSize bytes by omega]
          rfl
    · rename_i done
      cases returned
      exact ⟨inode, l, loaded, pos, by omega, by rw [if_neg done]⟩

end Growing

/-! ## The operations -/

/-- The operations on files. -/
inductive FileOp where
  | create (filename : List Byte) (mode : Nat) (now : Int)
  | write (inodeId size offset : Nat)
  | truncate (inodeId offset : Nat)
  | chown (path : List Byte) (uid gid : Int)
  | rename (u : Uninitialised) (fromFilename toFilename : List Byte)
  | unlink (u : Uninitialised) (filename : List Byte)

/-- The transaction of an operation.  Writing copies its data once it has committed. -/
def FileOp.txn (metadata : StorageMetadata) (db : Db) : FileOp → Option TxnEnd
  | create filename mode now => createTxn db filename mode now
  | write inodeId size offset =>
    (mtlExpandInode metadata db inodeId (((mtlLoadFile db inodeId).map Prod.snd).getD [])
      (u64 (offset + size))).map .committed
  | truncate inodeId offset => (mtlTruncate metadata db inodeId offset).map .committed
  | chown path uid gid => mtlChown db path uid gid
  | rename u fromFilename toFilename => mtlRename u db fromFilename toFilename
  | unlink u filename => mtlUnlink u db filename

/-- The store after an operation. -/
def FileOp.step (metadata : StorageMetadata) (env : Env) (op : FileOp) : Option Env :=
  env.transact fun db => op.txn metadata db

/-- The length the operation is to grow a file to. -/
def FileOp.growsTo (db : Db) : FileOp → Option (Nat × Nat)
  | write inodeId size offset => some (inodeId, u64 (offset + size))
  | truncate inodeId offset => (mtlLoadFile db inodeId).bind fun r =>
      if r.1.length ≤ offset then some (inodeId, offset) else none
  | _ => none

/-- Growing the file to `bytes` bytes does not wrap around: neither the bytes of the blocks it then
has, nor the length of two extents that a reservation joins. -/
def GrowthFits (metadata : StorageMetadata) (db : Db) (id bytes : Nat) : Prop :=
  ∀ r ∈ mtlLoadFile db id, r.1.type = .file →
    blockCount r.2 < blocksFor metadata.blockSize bytes →
      blocksFor metadata.blockSize bytes * metadata.blockSize < 2 ^ 64 ∧
        RoundsJoin (blocksFor metadata.blockSize bytes - blockCount r.2) db.allocator
          (r.2.getLastD ⟨0, 0⟩) (blocksFor metadata.blockSize bytes - blockCount r.2)

/-- If the operation grows a file, nothing wraps around. -/
def FileOp.Fits (metadata : StorageMetadata) (env : Env) (op : FileOp) : Prop :=
  ∀ g ∈ op.growsTo env.db, GrowthFits metadata env.db g.1 g.2

/-- The arguments are 64-bit values. -/
def FileOp.Admissible : FileOp → Prop
  | truncate _ offset => offset < 2 ^ 64
  | _ => True

/-- The blocks of every file are those that its length needs. -/
structure Db.Counted (db : Db) (metadata : StorageMetadata) : Prop where
  allocator : db.allocator.Small
  files : ∀ {id inode l}, db.FileAt id inode l → CountOk metadata.blockSize inode.length l

variable {metadata : StorageMetadata} {db db' : Db} {id bytes : Nat} {inode : Inode}
  {l : List FileExtent}

/-- Only the inode of the file has to be looked at. -/
theorem Db.Counted.update (counted : db.Counted metadata) (touched : Db.Touched id db db')
    (own : ∀ {inode' l'}, db'.FileAt id inode' l' → CountOk metadata.blockSize inode'.length l') :
    db'.Counted metadata := by
  refine ⟨touched.allocator counted.allocator, ?_⟩
  intro other inode' l' found
  by_cases this : other = id
  · subst this
    exact own found
  · exact counted.files ((touched.frame.fileAt this).mp found)

theorem mtlExpandInode_counted (counted : db.Counted metadata) (positive : 0 < metadata.blockSize)
    (loaded : mtlLoadFile db id = some (inode, l)) (small : bytes < 2 ^ 64)
    (fits : GrowthFits metadata db id bytes)
    (returned : mtlExpandInode metadata db id l bytes = some db') : db'.Counted metadata := by
  have touched : Db.Touched id db db' := expandLoop_touched returned
  refine counted.update touched ?_
  rintro inode' l' ⟨found, isFile⟩
  obtain ⟨r, found', same⟩ := touched.type _ found
  rw [loaded] at found'
  cases found'
  have isFile' : inode.type = .file := same.symm.trans isFile
  obtain ⟨lengthSmall, pos, count⟩ := counted.files ⟨loaded, isFile'⟩
  have blocks : blocksFor metadata.blockSize bytes < 2 ^ 64 :=
    Nat.lt_of_le_of_lt (blocksFor_le_self positive bytes) small
  have current : u64 (l.map FileExtent.length).sum = blockCount l := by
    refine u64_of_lt ?_
    change blockCount l < 2 ^ 64
    rw [count]
    exact Nat.lt_of_le_of_lt (blocksFor_le_self positive _) lengthSmall
  simp only [mtlExpandInode, current] at returned
  rcases Nat.lt_or_ge (blockCount l) (blocksFor metadata.blockSize bytes) with missing | done
  · obtain ⟨noWrap, joins⟩ := fits _ loaded isFile' missing
    obtain ⟨inode₁, l₁, found₁, pos₁, count₁, length₁⟩ :=
      expandLoop_counted counted.allocator blocks joins loaded rfl pos returned
    rw [found] at found₁
    cases found₁
    have holds : ¬ u64 (blocksFor metadata.blockSize bytes * metadata.blockSize) < bytes := by
      rw [u64_of_lt noWrap, Nat.not_lt]
      exact (blocksFor_le_iff positive).mp (le_refl _)
    rw [if_pos missing, roundLength, if_neg holds] at length₁
    rw [length₁]
    exact ⟨small, pos₁, count₁.trans (max_eq_right (Nat.le_of_lt missing))⟩
  · rw [expandLoop_done _ _ _ _ _ _ done] at returned
    cases returned
    rw [loaded] at found
    cases found
    exact ⟨lengthSmall, pos, count⟩

/-! ## Shrinking -/

theorem mtlTruncateFileExtents_touched {length count : Nat} {update : Option Nat}
    (returned : mtlTruncateFileExtents db id length count update = some db') :
    Db.Touched id db db' := by
  obtain ⟨⟨inode, l⟩, loaded, rest⟩ := Option.bind_eq_some_iff.mp returned
  cases rest
  exact .put loaded _ _

/-- Shrinking an inode changes the allocator and that inode only, which keeps its type. -/
theorem truncateLoop_touched (positive : 0 < metadata.blockSize) (small : offset < 2 ^ 64)
    {i start : Nat} (returned : truncateLoop metadata id offset l i start db = some db') :
    Db.Touched id db db' := by
  induction l generalizing i start db with
  | nil =>
    cases returned
    exact .refl _ _
  | cons e l ih =>
    simp only [truncateLoop, Option.bind_eq_bind] at returned
    split at returned
    · simp only [Option.bind_some, Option.bind_eq_some_iff] at returned
      obtain ⟨a₁, freed, rest⟩ := returned
      have first := Db.Touched.allocate id db fun small => mtlFreeExtent_small small freed
      exact first.trans (ih rest)
    · split at returned
      · split at returned
        · simp only [Option.bind_eq_some_iff] at returned
          obtain ⟨a₁, shortened, db₁, updated, rest⟩ := returned
          have fewer := blocksFor_le_self positive (offset - start)
          have first := Db.Touched.allocate id db fun small =>
            mtlTruncateExtent_small small (by omega) shortened
          exact (first.trans (mtlTruncateFileExtents_touched updated)).trans (ih rest)
        · simp only [Option.bind_eq_some_iff] at returned
          obtain ⟨a₁, freed, db₁, updated, rest⟩ := returned
          have first := Db.Touched.allocate id db fun small => mtlFreeExtent_small small freed
          exact (first.trans (mtlTruncateFileExtents_touched updated)).trans (ih rest)
      · exact ih returned

theorem pivotRest_pos {before after : List FileExtent} {pivot : FileExtent}
    (pos : ∀ e ∈ before ++ pivot :: after, 0 < e.length) (n : Nat) :
    ∀ e ∈ before ++ pivotRest pivot n, 0 < e.length := by
  intro e member
  rcases List.mem_append.mp member with old | new
  · exact pos e (List.mem_append_left _ old)
  · unfold pivotRest at new
    split at new
    · rename_i nonzero
      rw [List.mem_singleton.mp new]
      exact Nat.pos_of_ne_zero nonzero
    · cases new

theorem mtlTruncate_counted_of_short (counted : db.Counted metadata)
    (positive : 0 < metadata.blockSize) (small : offset < 2 ^ 64)
    (loaded : mtlLoadFile db id = some (inode, l)) (short : offset < inode.length)
    (returned : mtlTruncate metadata db id offset = some db') : db'.Counted metadata := by
  have walked := returned
  simp only [mtlTruncate, loaded, Option.bind_eq_bind, Option.bind_some,
    if_neg (Nat.not_le.mpr short)] at walked
  have touched := truncateLoop_touched positive small walked
  refine counted.update touched ?_
  rintro inode' l' ⟨found, isFile⟩
  obtain ⟨r, found', same⟩ := touched.type _ found
  rw [loaded] at found'
  cases found'
  obtain ⟨lengthSmall, pos, count⟩ := counted.files ⟨loaded, same.symm.trans isFile⟩
  by_cases reached : EndReached metadata.blockSize offset l
  · obtain ⟨before, pivot, after, n, rfl, -, -, -, shorter, total, cuts⟩ :=
      mtlTruncateWith_of_reached loaded short positive pos count lengthSmall reached
    rw [mtlTruncate_eq_with, cuts] at returned
    obtain ⟨a', -, rfl⟩ := Option.map_eq_some_iff.mp returned
    rw [shrunkDb, mtlLoadFile_put_self (pivotRest_fits (mtlLoadFile_fits loaded) shorter)] at found
    cases found
    exact ⟨small, pivotRest_pos pos n, by rw [blockCount_pivotRest, total]⟩
  · rw [mtlTruncate_of_not_reached loaded short positive pos count lengthSmall reached] at returned
    cases returned
    rw [loaded] at found
    cases found
    exact ⟨lengthSmall, pos, count⟩

/-! ## The namespace -/

/-- Every file was there before with the same length and the same extents, or is new and empty. -/
structure Db.KeepsFiles (db db' : Db) : Prop where
  allocator : db.allocator.Small → db'.allocator.Small
  files : ∀ {id inode l}, db'.FileAt id inode l → inode.length = 0 ∧ l = [] ∨
    ∃ inode', db.FileAt id inode' l ∧ inode.length = inode'.length

theorem Db.KeepsFiles.of_files (allocator : db'.allocator = db.allocator)
    (files : ∀ {id inode l}, db'.FileAt id inode l → db.FileAt id inode l) :
    Db.KeepsFiles db db' :=
  ⟨fun small => allocator ▸ small, fun found => Or.inr ⟨_, files found, rfl⟩⟩

theorem Db.KeepsFiles.refl (db : Db) : Db.KeepsFiles db db := .of_files rfl fun found => found

theorem Db.KeepsFiles.trans {db'' : Db} (first : Db.KeepsFiles db db')
    (second : Db.KeepsFiles db' db'') : Db.KeepsFiles db db'' := by
  refine ⟨fun small => second.allocator (first.allocator small), ?_⟩
  intro id inode'' l found''
  rcases second.files found'' with new | ⟨inode', found', length'⟩
  · exact Or.inl new
  · rw [length']
    exact first.files found'

/-- Empty files have the blocks that their length needs. -/
theorem Db.Counted.keeps (counted : db.Counted metadata) (keeps : Db.KeepsFiles db db') :
    db'.Counted metadata := by
  refine ⟨keeps.allocator counted.allocator, ?_⟩
  intro id inode l found
  rcases keeps.files found with ⟨empty, rfl⟩ | ⟨inode', found', length⟩
  · rw [empty]
    refine ⟨Nat.two_pow_pos 64, fun e member => absurd member List.not_mem_nil, ?_⟩
    simp [blockCount, blocksFor]
  · rw [length]
    exact counted.files found'

theorem mtlAppendInodeIdToDirectory_keeps {dirInodeId inodeId : Nat} {filename : List Byte}
    (returned : mtlAppendInodeIdToDirectory db dirInodeId filename inodeId = some (.ok db')) :
    Db.KeepsFiles db db' := by
  obtain ⟨dirInode, dirData, length, data, loaded, isDirectory, rfl⟩ :=
    mtlAppendInodeIdToDirectory_ok returned
  exact .of_files rfl (fileAt_put_directory length data loaded isDirectory).mp

/-- Removing an entry only writes the inode of the directory. -/
theorem mtlRemoveEntryFromDirectory_ok {u : Uninitialised} {dirInodeId : Nat} {filename : List Byte}
    {removed : Option Nat}
    (returned : mtlRemoveEntryFromDirectory u db dirInodeId filename = some (removed, .ok db')) :
    ∃ dirInode dirData length data, mtlLoadInode db dirInodeId = some (dirInode, dirData) ∧
      dirInode.type = .directory ∧
      db' = mtlPutInode db dirInodeId { dirInode with length } data := by
  obtain ⟨⟨dirInode, dirData⟩, loaded, rest⟩ := Option.bind_eq_some_iff.mp returned
  dsimp only at rest
  split at rest
  · cases rest
  · rename_i isDirectory
    split at rest
    · cases rest
    · split at rest
      · cases rest
      · cases rest
        exact ⟨dirInode, dirData, _, _, loaded, not_not.mp isDirectory, rfl⟩

theorem mtlRemoveEntryFromDirectory_keeps {u : Uninitialised} {dirInodeId : Nat}
    {filename : List Byte} {removed : Option Nat}
    (returned : mtlRemoveEntryFromDirectory u db dirInodeId filename = some (removed, .ok db')) :
    Db.KeepsFiles db db' := by
  obtain ⟨dirInode, dirData, length, data, loaded, isDirectory, rfl⟩ :=
    mtlRemoveEntryFromDirectory_ok returned
  exact .of_files rfl (fileAt_put_directory length data loaded isDirectory).mp

theorem mtlCreate_keeps {filename : List Byte} {mode : Nat} {now : Int} {created : Nat}
    (returned : mtlCreate db filename mode now = some (.ok (created, db'))) :
    Db.KeepsFiles db db' := by
  simp only [mtlCreate, Option.bind_eq_bind] at returned
  obtain ⟨parent, -, rest⟩ := Option.bind_eq_some_iff.mp returned
  cases parent with
  | error code => cases rest
  | ok parentDirInodeId =>
    simp only [mtlCreateFileInDirectory, mtlNextInodeId, Option.bind_eq_bind] at rest
    obtain ⟨result, appended, rest⟩ := Option.bind_eq_some_iff.mp rest
    cases result with
    | error code => cases rest
    | ok db₁ =>
      cases rest
      have numbered : Db.KeepsFiles db { db with nextInode := some (db.nextInode.getD 1 + 1) } :=
        .of_files rfl fun found => found
      refine (numbered.trans (mtlAppendInodeIdToDirectory_keeps appended)).trans
        ⟨fun small => small, ?_⟩
      intro other inode l found
      by_cases this : other = db.nextInode.getD 1
      · subst this
        have loaded := found.1
        simp only [mtlLoadFile, mtlLoadInode, mtlPutInode, get_put_self, Option.bind_eq_bind,
          Option.bind_some] at loaded
        cases loaded
        exact Or.inl ⟨rfl, rfl⟩
      · exact Or.inr ⟨inode, ⟨(mtlLoadFile_put_of_ne this).symm.trans found.1, found.2⟩, rfl⟩

theorem mtlChown_keeps {path : List Byte} {uid gid : Int}
    (returned : mtlChown db path uid gid = some (.committed db')) : Db.KeepsFiles db db' := by
  obtain ⟨resolved, -, rest⟩ := Option.bind_eq_some_iff.mp returned
  cases resolved with
  | error code => cases rest
  | ok inodeId =>
    dsimp only at rest
    split at rest
    · cases rest
    · rename_i oldInode data loaded
      cases rest
      refine ⟨fun small => small, ?_⟩
      intro other inode l found
      by_cases this : other = inodeId
      · subst this
        obtain ⟨found, isFile⟩ := found
        simp only [mtlLoadFile, mtlLoadInode, mtlPutInode, get_put_self, Option.bind_eq_bind,
          Option.bind_some] at found
        cases found
        refine Or.inr ⟨oldInode, ⟨?_, isFile⟩, rfl⟩
        simp only [mtlLoadFile, loaded, Option.bind_eq_bind, Option.bind_some]
      · exact Or.inr ⟨inode, ⟨(mtlLoadFile_put_of_ne this).symm.trans found.1, found.2⟩, rfl⟩

theorem mtlRename_keeps {u : Uninitialised} {fromFilename toFilename : List Byte}
    (returned : mtlRename u db fromFilename toFilename = some (.committed db')) :
    Db.KeepsFiles db db' := by
  obtain ⟨fromParent, -, rest⟩ := Option.bind_eq_some_iff.mp returned
  cases fromParent with
  | error code => cases rest
  | ok fromParentDirInodeId =>
    obtain ⟨toParent, -, rest⟩ := Option.bind_eq_some_iff.mp rest
    cases toParent with
    | error code => cases rest
    | ok toParentDirInodeId =>
      obtain ⟨⟨inodeId, removed⟩, removal, rest⟩ := Option.bind_eq_some_iff.mp rest
      cases removed with
      | error code => cases rest
      | ok db₁ =>
        obtain ⟨appended, append, rest⟩ := Option.bind_eq_some_iff.mp rest
        cases appended with
        | error code => cases rest
        | ok db₂ =>
          cases rest
          exact (mtlRemoveEntryFromDirectory_keeps removal).trans
            (mtlAppendInodeIdToDirectory_keeps append)

theorem freeExtents_small (small : a.Small) (returned : freeExtents a l = some a') : a'.Small := by
  induction l generalizing a with
  | nil =>
    cases returned
    exact small
  | cons e l ih =>
    obtain ⟨a₁, freed, rest⟩ := Option.bind_eq_some_iff.mp returned
    exact ih (mtlFreeExtent_small small freed) rest

theorem mtlUnlink_keeps {u : Uninitialised} {filename : List Byte}
    (returned : mtlUnlink u db filename = some (.committed db')) : Db.KeepsFiles db db' := by
  obtain ⟨parent, -, rest⟩ := Option.bind_eq_some_iff.mp returned
  obtain ⟨⟨removedId, removed⟩, removal, rest⟩ := Option.bind_eq_some_iff.mp rest
  have first : Db.KeepsFiles db (removed.toOption.getD db) := by
    cases removed with
    | error code => exact .refl db
    | ok db₁ => exact mtlRemoveEntryFromDirectory_keeps removal
  dsimp only at rest
  split at rest
  · cases rest
  · obtain ⟨a₁, freed, rest⟩ := Option.bind_eq_some_iff.mp rest
    cases rest
    refine first.trans ⟨fun small => freeExtents_small small freed, ?_⟩
    intro other inode l found
    obtain ⟨found, isFile⟩ := found
    refine Or.inr ⟨inode, ⟨?_, isFile⟩, rfl⟩
    by_cases this : other = removedId.getD u.inodeId
    · subst this
      simp only [mtlLoadFile, mtlLoadInode, mtlDeleteInode, get_del, if_true, Option.bind_eq_bind,
        Option.bind_none] at found
      cases found
    · simp only [mtlLoadFile, mtlLoadInode, mtlDeleteInode, get_del_of_ne this] at found
      exact found

/-! ## Runs -/

/-- The number of blocks that `bytes` bytes need, rounded up. -/
theorem blocksFor_eq_ceil {blockSize : Nat} (positive : 0 < blockSize) (bytes : Nat) :
    blocksFor blockSize bytes = (bytes + blockSize - 1) / blockSize := by
  refine eq_of_forall_ge_iff fun k => ?_
  have roundedUp : (bytes + blockSize - 1) / blockSize ≤ k ↔
      bytes + blockSize - 1 < (k + 1) * blockSize := by
    rw [← Nat.lt_succ_iff, Nat.div_lt_iff_lt_mul positive]
  rw [blocksFor_le_iff positive, roundedUp, Nat.succ_mul]
  omega

theorem FileOp.txn_counted (counted : db.Counted metadata) (positive : 0 < metadata.blockSize)
    {op : FileOp} (admissible : op.Admissible)
    (fits : ∀ g ∈ op.growsTo db, GrowthFits metadata db g.1 g.2)
    (returned : op.txn metadata db = some (.committed db')) : db'.Counted metadata := by
  cases op with
  | create filename mode now =>
    obtain ⟨result, created, rest⟩ := Option.bind_eq_some_iff.mp returned
    cases result with
    | error code => cases rest
    | ok result =>
      cases rest
      exact counted.keeps (mtlCreate_keeps created)
  | write inodeId size offset =>
    obtain ⟨db₁, expanded, same⟩ := Option.map_eq_some_iff.mp returned
    cases same
    cases loaded : mtlLoadFile db inodeId with
    | none =>
      -- There is no such inode, before and after.
      have touched : Db.Touched inodeId db db' := expandLoop_touched expanded
      refine counted.update touched ?_
      rintro inode' l' ⟨found, -⟩
      obtain ⟨r, found', -⟩ := touched.type _ found
      rw [loaded] at found'
      cases found'
    | some r =>
      rw [loaded] at expanded
      exact mtlExpandInode_counted counted positive loaded (u64_lt _) (fits _ rfl) expanded
  | truncate inodeId offset =>
    obtain ⟨db₁, truncated, same⟩ := Option.map_eq_some_iff.mp returned
    cases same
    have walked := truncated
    obtain ⟨⟨inode, l⟩, loaded, rest⟩ := Option.bind_eq_some_iff.mp walked
    rcases Nat.lt_or_ge offset inode.length with short | long
    · exact mtlTruncate_counted_of_short counted positive admissible loaded short truncated
    · have grows : FileOp.growsTo db (.truncate inodeId offset) = some (inodeId, offset) := by
        simp only [FileOp.growsTo, loaded, Option.bind_some, if_pos long]
      dsimp only at rest
      rw [if_pos (show inode.length ≤ offset from long)] at rest
      exact mtlExpandInode_counted counted positive loaded admissible (fits _ grows) rest
  | chown path uid gid => exact counted.keeps (mtlChown_keeps returned)
  | rename u fromFilename toFilename => exact counted.keeps (mtlRename_keeps returned)
  | unlink u filename => exact counted.keeps (mtlUnlink_keeps returned)

theorem FileOp.step_counted {env env' : Env} {op : FileOp} (counted : env.db.Counted metadata)
    (positive : 0 < metadata.blockSize) (admissible : op.Admissible) (fits : op.Fits metadata env)
    (returned : op.step metadata env = some env') : env'.db.Counted metadata := by
  rw [FileOp.step, Env.transact] at returned
  split at returned
  · cases returned
  · obtain ⟨ended, txn, same⟩ := Option.map_eq_some_iff.mp returned
    cases ended with
    | committed db =>
      cases same
      exact FileOp.txn_counted counted positive admissible fits txn
    | aborted code =>
      cases same
      exact counted
    | leftOpen code =>
      cases same
      exact counted

theorem Db.counted_fresh (small : metadata.numBlocks < 2 ^ 64) {now : Int}
    (initialised : mtlInitialize emptyDb metadata now = some db) : db.Counted metadata := by
  obtain ⟨db₀, returned, noFiles, allocator, -⟩ := mtlInitialize_fresh metadata now
  rw [initialised] at returned
  cases returned
  refine ⟨⟨?_⟩, fun found => absurd found (noFiles _ _ _)⟩
  intro offset e stored
  have extents : (freshAllocator metadata.numBlocks).extents = OrderedStore.put ∅ 0
      ⟨metadata.numBlocks, .free, (mtlHeapInsert ∅ metadata.numBlocks 0).1⟩ := rfl
  rw [allocator, extents, get_put] at stored
  split at stored
  · cases stored
    exact small
  · cases stored

/-- In every state that is reached from a fresh store by operations that fit, the extents of every
file are non-empty, and they have exactly the blocks that its length needs. -/
theorem blocks_match_length {metadata : StorageMetadata} {now : Int} {db : Db} {env : Env}
    {ops : List FileOp} (positive : 0 < metadata.blockSize)
    (device : metadata.blockSize * metadata.numBlocks < 2 ^ 64)
    (initialised : mtlInitialize emptyDb metadata now = some db)
    (fits : Runs.Steps (FileOp.step metadata)
      (fun env op => op.Admissible ∧ FileOp.Fits metadata env op) ⟨db, false⟩ ops)
    (finished : Runs.run (FileOp.step metadata) ⟨db, false⟩ ops = some env)
    {id : Nat} {inode : Inode} {l : List FileExtent} (file : env.db.FileAt id inode l) :
    (∀ e ∈ l, 0 < e.length) ∧ (l.map FileExtent.length).sum =
      (inode.length + metadata.blockSize - 1) / metadata.blockSize := by
  have small : metadata.numBlocks < 2 ^ 64 :=
    Nat.lt_of_le_of_lt (Nat.le_mul_of_pos_left _ positive) device
  have counted : env.db.Counted metadata := by
    refine Runs.inv_of_run (I := fun env => env.db.Counted metadata) ?_
      (Db.counted_fresh small initialised) fits finished
    intro env op env' counted admitted returned
    exact FileOp.step_counted counted positive admitted.1 admitted.2 returned
  obtain ⟨-, pos, count⟩ := counted.files file
  rw [← blocksFor_eq_ceil positive, ← count]
  exact ⟨pos, rfl⟩

instance JoinOk.decidable (a : Allocator) (lastExtent : Option FileExtent) :
    Decidable (JoinOk a lastExtent) := by
  unfold JoinOk
  infer_instance

instance RoundsJoin.decidable : ∀ fuel a last need, Decidable (RoundsJoin fuel a last need)
  | 0, _, _, _ => inferInstanceAs (Decidable True)
  | fuel + 1, a, last, need =>
    have : ∀ a last need, Decidable (RoundsJoin fuel a last need) := RoundsJoin.decidable fuel
    inferInstanceAs (Decidable (0 < need → JoinOk a (lastExtentArg last) ∧
      ∀ r ∈ mtlReserveExtent a need (lastExtentArg last) true, ∀ offset ∈ r.2.1,
        RoundsJoin fuel r.2.2 (growLastExtent last ⟨offset, r.1⟩) (need - r.1)))

instance GrowthFits.decidable (metadata : StorageMetadata) (db : Db) (id bytes : Nat) :
    Decidable (GrowthFits metadata db id bytes) := by
  unfold GrowthFits
  infer_instance

instance FileOp.decidableFits (metadata : StorageMetadata) (env : Env) (op : FileOp) :
    Decidable (FileOp.Fits metadata env op) := by
  unfold FileOp.Fits
  infer_instance

instance FileOp.decidableAdmissible : ∀ op : FileOp, Decidable op.Admissible
  | .truncate _ offset => inferInstanceAs (Decidable (offset < 2 ^ 64))
  | .create _ _ _ | .write _ _ _ | .chown _ _ _ | .rename _ _ _ | .unlink _ _ =>
    inferInstanceAs (Decidable True)

/-- A file in the root directory. -/
def inRoot (letter : Nat) : List Byte := [slash, byte letter]

/-- Uninitialised locals that hold zeros. -/
def zeros : Uninitialised := ⟨0, 0, fun _ => byte 0⟩

/-- Two files that grow in turns, one of which is cut and renamed and the other removed. -/
def mixedOps : List FileOp :=
  [.create (inRoot 97) 0 0, .create (inRoot 98) 0 0, .write 1 700 0, .write 2 10 0, .truncate 1 2000,
    .truncate 1 600, .chown (inRoot 97) 1 1, .rename zeros (inRoot 97) (inRoot 99),
    .unlink zeros (inRoot 98)]

def mixedDb : Db := (mtlInitialize emptyDb ⟨16, 512⟩ 0).get (by decide +kernel)

def mixedEnv : Env := (Runs.run (FileOp.step ⟨16, 512⟩) ⟨mixedDb, false⟩ mixedOps).get (by decide +kernel)

theorem blocks_match_length_mixed :
    mixedEnv.db.FileAt 1 ⟨.file, 600, 1, 1, 0, 0, 0, sIfreg⟩ [⟨0, 2⟩] ∧
      (∀ e ∈ [FileExtent.mk 0 2], 0 < e.length) ∧
      ([FileExtent.mk 0 2].map FileExtent.length).sum = (600 + 512 - 1) / 512 := by
  have file : mixedEnv.db.FileAt 1 ⟨.file, 600, 1, 1, 0, 0, 0, sIfreg⟩ [⟨0, 2⟩] :=
    ⟨by decide +kernel, rfl⟩
  have initialised : mtlInitialize emptyDb ⟨16, 512⟩ 0 = some mixedDb := (Option.some_get _).symm
  have finished : Runs.run (FileOp.step ⟨16, 512⟩) ⟨mixedDb, false⟩ mixedOps = some mixedEnv :=
    (Option.some_get _).symm
  have fits : Runs.Steps (FileOp.step ⟨16, 512⟩)
      (fun env op => op.Admissible ∧ FileOp.Fits ⟨16, 512⟩ env op) ⟨mixedDb, false⟩ mixedOps := by
    decide +kernel
  exact ⟨file, blocks_match_length (by decide) (by decide) initialised fits finished file⟩

/-- Four blocks that together have nearly `2 ^ 64` bytes.  The removal of three files merges the
space they leave with a block in use, so that a new file shares a block and is grown to five. -/
def wideOps : List FileOp :=
  [.create (inRoot 97) 0 0, .create (inRoot 98) 0 0, .create (inRoot 99) 0 0,
    .create (inRoot 100) 0 0, .truncate 1 1, .truncate 2 1, .truncate 3 1, .truncate 4 1,
    .unlink zeros (inRoot 99), .unlink zeros (inRoot 100), .unlink zeros (inRoot 98),
    .create (inRoot 101) 0 0, .truncate 5 1, .unlink zeros (inRoot 97), .truncate 5 (2 ^ 64 - 1)]

def wideDb : Db := (mtlInitialize emptyDb ⟨4, 2 ^ 62 - 1⟩ 0).get (by decide +kernel)

def wideEnv : Env :=
  (Runs.run (FileOp.step ⟨4, 2 ^ 62 - 1⟩) ⟨wideDb, false⟩ wideOps).get (by decide +kernel)

theorem not_blocks_match_length_wide :
    mtlInitialize emptyDb ⟨4, 2 ^ 62 - 1⟩ 0 = some wideDb ∧ (2 ^ 62 - 1) * 4 < 2 ^ 64 ∧
      (∀ op ∈ wideOps, op.Admissible) ∧
      Runs.run (FileOp.step ⟨4, 2 ^ 62 - 1⟩) ⟨wideDb, false⟩ wideOps = some wideEnv ∧
      wideEnv.db.FileAt 5 ⟨.file, 2 ^ 62 - 5, 0, 0, 0, 0, 0, sIfreg⟩ [⟨0, 5⟩] ∧
      ([FileExtent.mk 0 5].map FileExtent.length).sum ≠
        (2 ^ 62 - 5 + (2 ^ 62 - 1) - 1) / (2 ^ 62 - 1) := by
  refine ⟨(Option.some_get _).symm, by decide, by decide, (Option.some_get _).symm,
    ⟨by decide +kernel, rfl⟩, by decide⟩

end MetalFs
