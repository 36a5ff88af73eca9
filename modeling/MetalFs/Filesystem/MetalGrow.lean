import MetalFs.Filesystem.ExtentRuns
import MetalFs.Filesystem.MetalInvariant

/-!
# Growing a file

What `mtl_expand_inode` does to a file from any state that satisfies `Db.Inv`, as
long as every reservation it makes is one that keeps the allocator's invariant
(`GrowOk`).  Each round of its loop gives the file either a new extent or a longer
last one; in both cases the old blocks stay where they are.  `expandLoop_cases` is
the whole loop: it adds the missing blocks, or there are not enough free ones and
its assertion fails.
-/

namespace MetalFs

open Segments OrderedStore

/-- No reservation of the loop in `mtl_expand_inode` uses up a free extent in place:
`need` blocks are missing and `last` is the last extent of the file. -/
def GrowOk : Nat → Allocator → FileExtent → Nat → Prop
  | 0, _, _, _ => True
  | fuel + 1, a, last, need =>
    0 < need → ReserveOk a need (lastExtentArg last) ∧
      ∀ r ∈ mtlReserveExtent a need (lastExtentArg last) true, ∀ offset ∈ r.2.1,
        GrowOk fuel r.2.2 (growLastExtent last ⟨offset, r.1⟩) (need - r.1)

instance GrowOk.decidable : ∀ fuel a last need, Decidable (GrowOk fuel a last need)
  | 0, _, _, _ => inferInstanceAs (Decidable True)
  | fuel + 1, a, last, need =>
    have : ∀ a last need, Decidable (GrowOk fuel a last need) := GrowOk.decidable fuel
    inferInstanceAs (Decidable (0 < need → ReserveOk a need (lastExtentArg last) ∧ ∀ r ∈ _, ∀ o ∈ _, _))

/-- What growing a file to hold `bytes` bytes did. -/
structure Expanded (metadata : StorageMetadata) (id bytes : Nat) (db : Db) (inode : Inode)
    (l : List FileExtent) (db' : Db) (inode' : Inode) (l' : List FileExtent) : Prop where
  inv : db'.Inv metadata
  file : db'.FileAt id inode' l'
  frame : Db.Frame id db db'
  isPrefix : IsPrefix (blockSegments l) (blockSegments l')
  blocks : blockCount l' = max (blockCount l) (blocksFor metadata.blockSize bytes)
  length : inode'.length =
    if blockCount l < blocksFor metadata.blockSize bytes then bytes else inode.length
  free : ∀ {o e}, db'.allocator.extents.get o = some e → e.status = .free →
    ∃ o' e', db.allocator.extents.get o' = some e' ∧ e'.status = .free ∧ o' ≤ o ∧
      o + e.length = o' + e'.length

section

variable {db : Db} {metadata : StorageMetadata} {id : Nat} {inode : Inode} {l : List FileExtent}

/-- The last extent of a file is what `mtl_expand_inode` passes on. -/
theorem lastExtentArg_getLastD (positive : ∀ e ∈ l, 0 < e.length) :
    lastExtentArg (l.getLastD ⟨0, 0⟩) = l.getLast? := by
  rcases List.eq_nil_or_concat l with rfl | ⟨init, last, rfl⟩
  · rfl
  · have := positive last (by simp)
    simp only [lastExtentArg, List.concat_eq_append, List.getLastD_concat, List.getLast?_concat]
    exact if_pos (by omega)

/-- Storing a new extent list and length for a file. -/
theorem mtlPutInode_spec (inv : db.Inv metadata) (bound : metadata.numBlocks < 2 ^ 64)
    (file : db.FileAt id inode l) {a' : Allocator} (newLength : Nat) (l' : List FileExtent)
    (allocator : a'.Inv metadata.numBlocks)
    (kept : ∀ {o n}, (∀ e ∈ l, e.offset ≠ o) → db.allocator.Committed o n → a'.Committed o n)
    (own : ∀ e ∈ l', a'.Committed e.offset e.length)
    (nodup : (l'.map FileExtent.offset).Nodup)
    (fresh : ∀ e' ∈ l', (∃ e ∈ l, e.offset = e'.offset) ∨
      ∀ n, ¬ db.allocator.Committed e'.offset n)
    (covered : newLength ≤ blockCount l' * metadata.blockSize) :
    let db' := mtlPutInode { db with allocator := a' } id { inode with length := newLength }
      (extentBytes l')
    db'.Inv metadata ∧ db'.FileAt id { inode with length := newLength } l' ∧
      Db.Frame id db db' := by
  intro db'
  have fits : ∀ e ∈ l', e.Fits := by
    intro e member
    obtain ⟨x, stored, _, length⟩ := own e member
    have inside := allocator.le stored
    exact ⟨by omega, by omega⟩
  have file' : db'.FileAt id { inode with length := newLength } l' :=
    ⟨mtlLoadFile_put_self fits, file.2⟩
  have frame : Db.Frame id db db' :=
    ⟨fun other different => mtlLoadInode_put_of_ne different, rfl⟩
  exact ⟨inv.update file frame file' allocator kept own nodup fresh covered, file', frame⟩

/-- The extents of a file are not where a free extent is. -/
theorem Db.Inv.offset_ne_of_free (inv : db.Inv metadata) (file : db.FileAt id inode l)
    {offset : Nat} (free : ∃ e, db.allocator.extents.get offset = some e ∧ e.status = .free)
    {e : FileExtent} (member : e ∈ l) : e.offset ≠ offset := by
  rintro rfl
  exact (inv.committed file e member).not_free free

/-- The entries still start at different blocks when one is added. -/
theorem nodup_concat {offset : Nat} (nodup : (l.map FileExtent.offset).Nodup)
    (other : ∀ e' ∈ l, e'.offset ≠ offset) (n : Nat) :
    ((l ++ [(⟨offset, n⟩ : FileExtent)]).map FileExtent.offset).Nodup := by
  rw [List.map_append, List.nodup_append]
  refine ⟨nodup, List.nodup_singleton _, ?_⟩
  intro o member o' member'
  obtain ⟨e', inList, rfl⟩ := List.mem_map.mp member
  rw [List.map_singleton, List.mem_singleton] at member'
  rw [member']
  exact other e' inList

theorem Reserved.committed {a a' : Allocator} {N size n offset o m : Nat}
    {lastExtent : Option FileExtent} (reserved : Reserved a a' N size lastExtent n offset)
    (committed : a.Committed o m) (other : o ≠ offset) : a'.Committed o m := by
  obtain ⟨x, stored, status, length⟩ := committed
  exact ⟨x, reserved.kept stored (by rw [status]; exact committed_ne_free) other, status, length⟩

section Round

variable {a' : Allocator} {size n offset newLength : Nat} (inv : db.Inv metadata)
  (bound : metadata.numBlocks < 2 ^ 64) (file : db.FileAt id inode l)
  (reserved : Reserved db.allocator a' metadata.numBlocks size l.getLast? n offset)
  (covered : newLength ≤ (blockCount l + n) * metadata.blockSize)

include inv bound file reserved covered

/-- The reserved blocks are a new extent of the file. -/
theorem mtlAddExtentToFile_spec
    (free : ∃ e, db.allocator.extents.get offset = some e ∧ e.status = .free)
    (committed : a'.Committed offset n) :
    ∃ db', mtlAddExtentToFile { db with allocator := a' } id ⟨offset, n⟩ newLength = some db' ∧
      db'.allocator = a' ∧ db'.Inv metadata ∧
      db'.FileAt id { inode with length := newLength } (l ++ [⟨offset, n⟩]) ∧
      Db.Frame id db db' := by
  have other : ∀ e ∈ l, e.offset ≠ offset := fun e member => inv.offset_ne_of_free file free member
  have loaded : mtlLoadFile { db with allocator := a' } id = some (inode, l) := file.1
  refine ⟨_, by simp only [mtlAddExtentToFile, loaded, Option.bind_eq_bind, Option.bind_some],
    rfl, mtlPutInode_spec inv bound file _ _ reserved.inv ?_ ?_ ?_ ?_ ?_⟩
  · intro o m _ wasCommitted
    refine reserved.committed wasCommitted ?_
    rintro rfl
    exact wasCommitted.not_free free
  · intro e member
    rcases List.mem_append.mp member with old | new
    · exact reserved.committed (inv.committed file e old) (other e old)
    · rw [List.mem_singleton.mp new]
      exact committed
  · exact nodup_concat (inv.nodup file) other n
  · intro e member
    rcases List.mem_append.mp member with old | new
    · exact Or.inl ⟨e, old, rfl⟩
    · rw [List.mem_singleton.mp new]
      exact Or.inr fun _ wasCommitted => wasCommitted.not_free free
  · rw [blockCount_append, blockCount_singleton]
    exact covered

/-- The reserved blocks have grown the last extent of the file. -/
theorem mtlExtendLastExtentInFile_spec {init : List FileExtent} {last : FileExtent}
    (split : l = init ++ [last]) (offsetEq : last.offset = offset)
    (committed : a'.Committed offset (last.length + n)) :
    ∃ db', mtlExtendLastExtentInFile { db with allocator := a' } id ⟨offset, last.length + n⟩
        newLength = some db' ∧
      db'.allocator = a' ∧ db'.Inv metadata ∧
      db'.FileAt id { inode with length := newLength } (init ++ [⟨offset, last.length + n⟩]) ∧
      Db.Frame id db db' := by
  subst split offsetEq
  have loaded : mtlLoadFile { db with allocator := a' } id = some (inode, init ++ [last]) := file.1
  have offsets : (init ++ [(⟨last.offset, last.length + n⟩ : FileExtent)]).map FileExtent.offset =
      (init ++ [last]).map FileExtent.offset := by simp
  have distinct := inv.nodup file
  refine ⟨_, by simp only [mtlExtendLastExtentInFile, loaded, Option.bind_eq_bind,
    Option.bind_some, List.append_eq_nil_iff, List.cons_ne_nil, and_false, if_false,
    List.dropLast_concat], rfl, mtlPutInode_spec inv bound file _ _ reserved.inv ?_ ?_ ?_ ?_ ?_⟩
  · intro o m notOwn wasCommitted
    exact reserved.committed wasCommitted (notOwn last (by simp)).symm
  · intro e member
    rcases List.mem_append.mp member with old | new
    · refine reserved.committed (inv.committed file e (List.mem_append_left _ old)) ?_
      rw [List.map_append, List.nodup_append] at distinct
      exact distinct.2.2 _ (List.mem_map_of_mem old) _ (by simp)
    · rw [List.mem_singleton.mp new]
      exact committed
  · rw [offsets]
    exact distinct
  · intro e member
    have inOffsets := List.mem_map_of_mem (f := FileExtent.offset) member
    rw [offsets] at inOffsets
    exact Or.inl (List.mem_map.mp inOffsets)
  · rw [blockCount_append, blockCount_singleton] at covered ⊢
    simpa only [Nat.add_assoc] using covered

/-- One round of the loop in `mtl_expand_inode`, after a reservation. -/
theorem assignExtent_spec :
    ∃ db' l', assignExtent { db with allocator := a' } id (l.getLastD ⟨0, 0⟩) ⟨offset, n⟩ newLength =
        some db' ∧ db'.allocator = a' ∧ db'.Inv metadata ∧
      db'.FileAt id { inode with length := newLength } l' ∧ Db.Frame id db db' ∧
      growLastExtent (l.getLastD ⟨0, 0⟩) ⟨offset, n⟩ = l'.getLastD ⟨0, 0⟩ ∧
      blockCount l' = blockCount l + n ∧
      IsPrefix (blockSegments l) (blockSegments l') := by
  rcases reserved.place with ⟨free, committed⟩ | ⟨last, isLast, offsetEq, committed⟩
  · obtain ⟨db', added, same, inv', file', frame⟩ :=
      mtlAddExtentToFile_spec inv bound file reserved covered free committed
    have fresh : ¬ ((l.getLastD ⟨0, 0⟩).length ≠ 0 ∧ (l.getLastD ⟨0, 0⟩).offset = offset) := by
      rcases List.eq_nil_or_concat l with rfl | ⟨init, last, rfl⟩
      · simp
      · rw [List.concat_eq_append, List.getLastD_concat]
        exact fun grown => inv.offset_ne_of_free file free (by simp) grown.2
    refine ⟨db', l ++ [⟨offset, n⟩], ?_, same, inv', file', frame, ?_, ?_, ?_⟩
    · rw [assignExtent, if_neg fresh]
      exact added
    · rw [growLastExtent, if_neg fresh, List.getLastD_concat]
    · rw [blockCount_append, blockCount_singleton]
    · rw [blockSegments_append]
      exact .append _ _
  · obtain ⟨init, split⟩ : ∃ init, l = init ++ [last] := by
      rcases List.eq_nil_or_concat l with rfl | ⟨init, last', rfl⟩
      · cases isLast
      · rw [List.concat_eq_append, List.getLast?_concat] at isLast
        cases isLast
        exact ⟨init, List.concat_eq_append⟩
    obtain ⟨db', extended, same, inv', file', frame⟩ :=
      mtlExtendLastExtentInFile_spec inv bound file reserved covered split offsetEq committed
    have positive : last.length ≠ 0 := by
      have := inv.pos file (e := last) (by simp [split])
      omega
    have lengthEq : u64 (last.length + n) = last.length + n := by
      obtain ⟨x, stored, _, length⟩ := committed
      have := reserved.inv.le stored
      exact u64_of_lt (by omega)
    subst split
    refine ⟨db', init ++ [⟨offset, last.length + n⟩], ?_, same, inv', file', frame, ?_, ?_, ?_⟩
    · rw [assignExtent, List.getLastD_concat, if_pos ⟨positive, offsetEq⟩, growLastExtent,
        if_pos ⟨positive, offsetEq⟩, lengthEq, offsetEq]
      exact extended
    · rw [List.getLastD_concat, List.getLastD_concat, growLastExtent,
        if_pos ⟨positive, offsetEq⟩, lengthEq, offsetEq]
    · simp only [blockCount_append, blockCount_singleton]
      omega
    · rw [blockSegments_append, blockSegments_append]
      subst offsetEq
      exact .grow_last _ _ _ _

end Round

/-- Nothing is missing. -/
theorem Expanded.refl {bytes : Nat} (inv : db.Inv metadata) (file : db.FileAt id inode l)
    (enough : ¬ blockCount l < blocksFor metadata.blockSize bytes) :
    Expanded metadata id bytes db inode l db inode l := by
  refine ⟨inv, file, .refl _ _, .refl _, ?_, by rw [if_neg enough], ?_⟩
  · exact (Nat.max_eq_left (Nat.not_lt.mp enough)).symm
  · intro o e found free
    exact ⟨o, e, found, free, le_refl _, rfl⟩

/-- A round in front of the others: it has added `n` of the missing blocks and set the length to
what they hold. -/
theorem Expanded.round {bytes size n offset : Nat} {db₁ db' : Db} {inode' : Inode}
    {l₁ l' : List FileExtent} (blockSize : 0 < metadata.blockSize)
    (missing : blockCount l + n ≤ blocksFor metadata.blockSize bytes)
    (reserved : Reserved db.allocator db₁.allocator metadata.numBlocks size l.getLast? n offset)
    (frame : Db.Frame id db db₁) (isPrefix : IsPrefix (blockSegments l) (blockSegments l₁))
    (blocks : blockCount l₁ = blockCount l + n)
    (expanded : Expanded metadata id bytes db₁
      { inode with length :=
          if (blockCount l + n) * metadata.blockSize < bytes then
            (blockCount l + n) * metadata.blockSize else bytes } l₁ db' inode' l') :
    Expanded metadata id bytes db inode l db' inode' l' := by
  have positive := reserved.positive
  refine ⟨expanded.inv, expanded.file, frame.trans expanded.frame,
    isPrefix.trans expanded.isPrefix, ?_, ?_, ?_⟩
  · rw [expanded.blocks]
    omega
  · rw [expanded.length, if_pos (show blockCount l < blocksFor metadata.blockSize bytes by omega)]
    split
    · rfl
    · rename_i complete
      have holds := (blocksFor_le_iff blockSize).mp (Nat.not_lt.mp complete)
      rw [blocks] at holds
      exact if_neg (Nat.not_lt.mpr holds)
  · intro o e found isFree
    obtain ⟨o₁, e₁, found₁, free₁, le₁, same₁⟩ := expanded.free found isFree
    obtain ⟨o₂, e₂, found₂, free₂, le₂, same₂⟩ := reserved.free found₁ free₁
    exact ⟨o₂, e₂, found₂, free₂, by omega, by omega⟩

/-- The loop of `mtl_expand_inode` adds the missing blocks, or there are not enough
free ones and its assertion fails. -/
theorem expandLoop_cases {fuel bytes : Nat} (inv : db.Inv metadata)
    (file : db.FileAt id inode l) (blockSize : 0 < metadata.blockSize)
    (device : metadata.numBlocks * metadata.blockSize < 2 ^ 64)
    (small : metadata.numBlocks + blocksFor metadata.blockSize bytes < 2 ^ 64)
    (enough : blocksFor metadata.blockSize bytes - blockCount l ≤ fuel)
    (ok : GrowOk fuel db.allocator (l.getLastD ⟨0, 0⟩)
      (blocksFor metadata.blockSize bytes - blockCount l)) :
    (expandLoop metadata id bytes fuel db (blockCount l) (l.getLastD ⟨0, 0⟩) = none ∧
        db.allocator.freeBlocks < blocksFor metadata.blockSize bytes - blockCount l) ∨
      ∃ db' inode' l',
        expandLoop metadata id bytes fuel db (blockCount l) (l.getLastD ⟨0, 0⟩) = some db' ∧
        Expanded metadata id bytes db inode l db' inode' l' ∧
        db.allocator.freeBlocks =
          db'.allocator.freeBlocks + (blocksFor metadata.blockSize bytes - blockCount l) := by
  induction fuel generalizing db inode l with
  | zero =>
    have done : ¬ blockCount l < blocksFor metadata.blockSize bytes := by omega
    exact Or.inr ⟨db, inode, l, by rw [expandLoop, if_neg done], .refl inv file done, by omega⟩
  | succ fuel ih =>
    by_cases missing : blockCount l < blocksFor metadata.blockSize bytes
    · have arg := lastExtentArg_getLastD (l := l) fun e member => inv.pos file member
      obtain ⟨reserveOk, growOk⟩ := ok (by omega)
      rw [arg] at reserveOk growOk
      have allocated : ∀ last ∈ l.getLast?, db.allocator.Allocated last.offset last.length :=
        fun last isLast => (inv.committed file last (List.mem_of_getLast? isLast)).allocated
      rcases mtlReserveExtent_spec inv.allocator (by omega) (by omega) (by omega) (by
          intro last isLast
          have short := inv.allocator.length_le (allocated last isLast)
          omega)
        allocated reserveOk with ⟨failed, noBlocks⟩ | ⟨n, offset, a', returned, reserved⟩
      · refine Or.inl ⟨?_, by omega⟩
        simp only [expandLoop, if_pos missing, arg, failed, Option.bind_eq_bind,
          Option.bind_some, if_true]
      · have positive := reserved.positive
        have le := reserved.le
        have currentEq : u64 (blockCount l + n) = blockCount l + n := u64_of_lt (by omega)
        have wrapped := Nat.mod_le ((blockCount l + n) * metadata.blockSize) (2 ^ 64)
        obtain ⟨db₁, l₁, assigned, same, inv₁, file₁, frame₁, lastEq, blocks₁, initial₁⟩ :=
          assignExtent_spec inv (by omega) file reserved (show
            (if u64 ((blockCount l + n) * metadata.blockSize) < bytes then
              u64 ((blockCount l + n) * metadata.blockSize) else bytes) ≤
                (blockCount l + n) * metadata.blockSize by unfold u64; split <;> omega)
        -- The blocks of the file fit on the device, so that their bytes do not wrap.
        have bytesEq : u64 ((blockCount l + n) * metadata.blockSize) =
            (blockCount l + n) * metadata.blockSize := by
          have fits := Nat.mul_le_mul_right metadata.blockSize (inv₁.blockCount_le file₁)
          rw [blocks₁] at fits
          exact u64_of_lt (by omega)
        have step : expandLoop metadata id bytes (fuel + 1) db (blockCount l)
              (l.getLastD ⟨0, 0⟩) =
            expandLoop metadata id bytes fuel db₁ (blockCount l₁) (l₁.getLastD ⟨0, 0⟩) := by
          simp only [expandLoop, if_pos missing, arg, returned, Option.bind_eq_bind,
            Option.bind_some, if_neg (Nat.ne_of_gt positive), currentEq, assigned, lastEq, blocks₁]
        have next : blocksFor metadata.blockSize bytes - blockCount l - n =
            blocksFor metadata.blockSize bytes - blockCount l₁ := by omega
        have ok₁ := growOk _ returned offset rfl
        simp only [lastEq, next] at ok₁
        have free := reserved.freeBlocks
        rw [step]
        rcases ih inv₁ file₁ (by omega) (by rw [same]; exact ok₁) with
          ⟨failed, short⟩ | ⟨db', inode', l', returned', expanded, free'⟩
        · exact Or.inl ⟨failed, by rw [same] at short; omega⟩
        · refine Or.inr ⟨db', inode', l', returned', ?_, by rw [same] at free'; omega⟩
          rw [bytesEq] at expanded
          rw [← same] at reserved
          exact expanded.round blockSize (by omega) reserved frame₁ initial₁ blocks₁
    · exact Or.inr ⟨db, inode, l, by rw [expandLoop, if_neg missing], .refl inv file missing,
        by omega⟩

end

end MetalFs
