import MetalFs.Filesystem.DirectoryContract

/-!
# Listing a directory

`mtl_opendir` copies the entries of a directory, and every `mtl_readdir` returns the name at the
`next` pointer and steps on.  The lookup of a name steps over the entries in the database instead,
with its own end condition.

* `mtlReaddir_entry`: one call returns the name of the next entry;
* `readdirs_encodes`: repeated calls return one name after the other, and then `MTL_COMPLETE`;
* `listing_agrees_with_lookup`: what is listed is what is found.
-/

namespace MetalFs

open Records

/-- `mtl_dir`, with the copy of the entries that follows it in memory. -/
structure MtlDir where
  length : Nat
  next : Option Nat
  data : List Byte
deriving DecidableEq

/-- `mtl_opendir`, with the written `*dir`.  The code of the first lookup is overwritten by that of
the second one. -/
def mtlOpendir (u : Uninitialised) (db : Db) (filename : List Byte) :
    Option (MtlCode × MtlDir) := do
  let resolved ← mtlResolveInode db (filename.length + 1) filename
  let (dirInode, dirEntries) ← mtlLoadInode db (resolved.toOption.getD u.inodeId)
  if dirEntries.length < dirInode.length then none
  else some (.success, ⟨dirInode.length, some 0, dirEntries.take dirInode.length⟩)

/-- The bytes that `strncpy` writes; `none` if it reads behind the end of `src`. -/
def strncpy : List Byte → Nat → Option (List Byte)
  | _, 0 => some []
  | [], _ + 1 => none
  | c :: src, n + 1 =>
    if c = byte 0 then some (List.replicate (n + 1) (byte 0))
    else (strncpy src n).map (c :: ·)

/-- `mtl_readdir` with a buffer of `size` bytes: the code, and what `*dir` and the buffer hold
afterwards.  `none` stands for an entry that is not in the copy. -/
def mtlReaddir (dir : MtlDir) (buffer : List Byte) : Option (MtlCode × MtlDir × List Byte) :=
  match dir.next with
  | none => some (.complete, dir, buffer)
  | some entry =>
    if dir.data.length < entry + sizeofDirectoryEntryHead then none
    else do
      let nameLen := entryNameLen dir.data entry
      let size := buffer.length
      let name ← strncpy (dir.data.drop (entry + sizeofDirectoryEntryHead))
        (if size < nameLen then size else nameLen)
      let buffer := name ++ buffer.drop name.length
      -- Null-terminate
      let buffer := if nameLen < size then buffer.set nameLen (byte 0) else buffer
      let next := entry + sizeofDirectoryEntryHead + nameLen
      let next := if dir.length < next + sizeofDirectoryEntryHead then none else some next
      some (.success, { dir with next }, buffer)

/-- Repeated calls of `mtl_readdir`, each with a buffer of its own: what they return and leave in
their buffers. -/
def readdirs : MtlDir → List (List Byte) → Option (List (MtlCode × List Byte))
  | _, [] => some []
  | dir, buffer :: buffers => do
    let (code, dir, buffer) ← mtlReaddir dir buffer
    let results ← readdirs dir buffers
    some ((code, buffer) :: results)

/-- What the `k`-th call is to return: a success and the name of the `k`-th entry, terminated by a
zero byte, or the end of the directory. -/
def listed (entries : List DirEntry) (k : Nat) (buffer : List Byte) : MtlCode × List Byte :=
  match entries[k]? with
  | some e => (.success, e.name ++ byte 0 :: buffer.drop (e.name.length + 1))
  | none => (.complete, buffer)

/-! ## One call -/

theorem strncpy_of_nul_free {name : List Byte} (nulFree : byte 0 ∉ name) (rest : List Byte) :
    strncpy (name ++ rest) name.length = some name := by
  induction name with
  | nil =>
    rw [List.length_nil, strncpy]
  | cons c name ih =>
    rw [List.mem_cons, not_or] at nulFree
    rw [List.cons_append, List.length_cons, strncpy, if_neg (Ne.symm nulFree.1), ih nulFree.2,
      Option.map_some]

/-- The name and the zero byte behind it replace the beginning of the buffer. -/
theorem terminate_name {name buffer : List Byte} (room : name.length < buffer.length) :
    (name ++ buffer.drop name.length).set name.length (byte 0) =
      name ++ byte 0 :: buffer.drop (name.length + 1) := by
  rw [List.set_append_right _ _ (Nat.le_refl _), Nat.sub_self, List.drop_eq_getElem_cons room,
    List.set_cons_zero]

variable {e : DirEntry} {entries : List DirEntry} {bytes before rest data buffer : List Byte}

/-- The `next` pointer while the records of `rest` are left. -/
def nextEntry (before rest : List Byte) : Option Nat :=
  if rest = [] then none else some before.length

theorem mtlReaddir_end : mtlReaddir ⟨data.length, nextEntry before [], data⟩ buffer =
    some (.complete, ⟨data.length, nextEntry before [], data⟩, buffer) := rfl

/-- There is another head exactly if there is another record. -/
theorem nextEntry_eq (encodes : Encodes IsRecord entries rest) (before : List Byte) :
    nextEntry before rest = if (before ++ rest).length < before.length + sizeofDirectoryEntryHead
      then none else some before.length := by
  unfold nextEntry
  cases encodes with
  | nil =>
    rw [if_pos rfl, if_pos]
    simp only [List.append_nil, sizeofDirectoryEntryHead]
    omega
  | cons record later =>
    have length := record.length
    have head : sizeofDirectoryEntryHead = 16 := rfl
    rw [if_neg, if_neg]
    · simp only [List.length_append]
      omega
    · intro empty
      rw [(List.append_eq_nil_iff.mp empty).1, List.length_nil] at length
      omega

theorem mtlReaddir_entry (record : IsRecord e bytes) (fits : e.Fits) (nulFree : byte 0 ∉ e.name)
    (later : Encodes IsRecord entries rest) (split : data = before ++ (bytes ++ rest))
    (room : 255 < buffer.length) :
    mtlReaddir ⟨data.length, nextEntry before (bytes ++ rest), data⟩ buffer =
      some (.success, ⟨data.length, nextEntry (before ++ bytes) rest, data⟩,
        e.name ++ byte 0 :: buffer.drop (e.name.length + 1)) := by
  have length := record.length
  have head : sizeofDirectoryEntryHead = 16 := rfl
  have short := fits.name
  have fields := record.recordAt fits before rest
  rw [← split] at fields
  have total : data.length = before.length + (bytes.length + rest.length) := by
    rw [split, List.length_append, List.length_append]
  have here : nextEntry before (bytes ++ rest) = some before.length := by
    rw [nextEntry_eq (.cons record later), if_neg]
    rw [← split]
    omega
  have copied : strncpy (data.drop (before.length + sizeofDirectoryEntryHead)) e.name.length =
      some e.name := by
    rcases record with ⟨padding, seven, rfl⟩
    have skipped : data.drop (before.length + sizeofDirectoryEntryHead) = e.name ++ rest := by
      rw [split, show before.length + sizeofDirectoryEntryHead = before.length + (8 + (1 + 7)) from
        rfl, ← List.drop_drop, List.drop_left, ← List.drop_drop, ← List.drop_drop, List.append_assoc,
        List.drop_left' (length_leBytes 8 _), List.append_assoc,
        List.drop_left' (length_leBytes 1 _), List.append_assoc, List.drop_left' seven]
    rw [skipped, strncpy_of_nul_free nulFree]
  have behind : nextEntry (before ++ bytes) rest =
      if data.length < before.length + sizeofDirectoryEntryHead + e.name.length +
        sizeofDirectoryEntryHead then none
      else some (before.length + sizeofDirectoryEntryHead + e.name.length) := by
    rw [nextEntry_eq later, List.append_assoc, ← split, List.length_append, length,
      ← Nat.add_assoc]
  have whole : e.name.length < buffer.length := by omega
  simp only [mtlReaddir, here, fields.nameLen]
  rw [if_neg (by omega), if_neg (Nat.lt_asymm whole), copied, Option.bind_eq_bind,
    Option.bind_some, if_pos whole, terminate_name whole, behind]

/-! ## Whole listings -/

theorem readdirs_encodes (encodes : Encodes IsRecord entries rest) (fits : ∀ e ∈ entries, e.Fits)
    (nulFree : ∀ e ∈ entries, byte 0 ∉ e.name) (split : data = before ++ rest)
    {buffers : List (List Byte)} (room : ∀ buffer ∈ buffers, 255 < buffer.length) :
    readdirs ⟨data.length, nextEntry before rest, data⟩ buffers =
      some (buffers.mapIdx (listed entries)) := by
  induction buffers generalizing before rest entries with
  | nil => rfl
  | cons buffer buffers ih =>
    rw [List.forall_mem_cons] at room
    cases encodes with
    | nil =>
      rw [readdirs, mtlReaddir_end, Option.bind_eq_bind, Option.bind_some, List.mapIdx_cons]
      dsimp only
      rw [ih .nil fits nulFree split room.2]
      rfl
    | @cons e l bytes rest record later =>
      rw [List.forall_mem_cons] at fits nulFree
      rw [readdirs, mtlReaddir_entry record fits.1 nulFree.1 later split room.1,
        Option.bind_eq_bind, Option.bind_some, List.mapIdx_cons]
      dsimp only
      rw [ih later fits.2 nulFree.2 (by rw [split, List.append_assoc]) room.2]
      rfl

theorem mtlOpendir_eq {db : Db} {dirInodeId : Nat} {inode : Inode} {filename : List Byte}
    (u : Uninitialised) (loaded : mtlLoadInode db dirInodeId = some (inode, data))
    (dir : DirectoryData inode data entries) (nonempty : entries ≠ [])
    (resolved : mtlResolveInode db (filename.length + 1) filename = some (.ok dirInodeId)) :
    mtlOpendir u db filename = some (.success, ⟨data.length, nextEntry [] data, data⟩) := by
  have first : nextEntry [] data = some 0 := by
    rw [nextEntry, if_neg]
    · rfl
    · intro empty
      have count := dir.enough
      rw [empty, List.length_nil] at count
      exact nonempty (List.length_eq_zero_iff.mp (Nat.lt_one_iff.mp count))
  simp only [mtlOpendir, resolved, Option.bind_eq_bind, Option.bind_some, Except.toOption,
    Option.getD_some, loaded, dir.length, lt_self_iff_false, if_false, List.take_length, first]

/-- A directory lists its entries in order and then reports its end, and a name is found exactly if
it is listed, with the inode id of its entry. -/
theorem listing_agrees_with_lookup {db : Db} {dirInodeId : Nat} {inode : Inode}
    {filename : List Byte} (u : Uninitialised) (dir : db.DirectoryAt dirInodeId inode entries)
    (nonempty : entries ≠ []) (distinct : (entries.map DirEntry.name).Nodup)
    (nulFree : ∀ e ∈ entries, byte 0 ∉ e.name)
    (resolved : mtlResolveInode db (filename.length + 1) filename = some (.ok dirInodeId)) :
    (∃ opened, mtlOpendir u db filename = some (.success, opened) ∧
      ∀ buffers : List (List Byte), (∀ buffer ∈ buffers, 255 < buffer.length) →
        readdirs opened buffers = some (buffers.mapIdx (listed entries))) ∧
    ∀ x inodeId, (mtlResolveInodeInDirectory db dirInodeId x = some (.ok inodeId) ↔
        ⟨x, inodeId⟩ ∈ entries) ∧
      (x ∉ entries.map DirEntry.name →
        mtlResolveInodeInDirectory db dirInodeId x = some (.error .errorNoentry)) := by
  refine ⟨?_, ?_⟩
  · rcases dir with ⟨data, loaded, dir⟩
    refine ⟨_, mtlOpendir_eq u loaded dir nonempty resolved, ?_⟩
    intro buffers room
    exact readdirs_encodes dir.encodes dir.fits nulFree (List.nil_append data).symm room
  · intro x inodeId
    rw [mtlResolveInodeInDirectory_eq dir, Option.some_inj, Option.some_inj]
    refine ⟨lookupName_ok_iff distinct, ?_⟩
    intro absent
    exact lookupName_error_iff.mpr ⟨rfl, absent⟩

theorem listing_agrees_with_lookup_root :
    mtlResolveInode rootDb 2 [slash] = some (.ok 0) ∧
      ∃ opened, mtlOpendir garbage rootDb [slash] = some (.success, opened) ∧
        readdirs opened (List.replicate 3 (List.replicate 256 (byte 1))) =
          some ((List.replicate 3 (List.replicate 256 (byte 1))).mapIdx (listed rootEntries)) := by
  have resolved : mtlResolveInode rootDb 2 [slash] = some (.ok 0) := by decide +kernel
  have agrees := listing_agrees_with_lookup garbage rootDb_directoryAt (by decide) (by decide)
    (by decide) resolved
  rcases agrees.1 with ⟨opened, done, lists⟩
  refine ⟨resolved, opened, done, lists _ ?_⟩
  intro buffer member
  rw [List.eq_of_mem_replicate member, List.length_replicate]
  omega

end MetalFs
