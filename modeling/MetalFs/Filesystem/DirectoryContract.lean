import MetalFs.Filesystem.FailedOps
import MetalFs.Lib.ByteWords

/-!
# Inserting and removing directory entries

Neither function checks the length of a name.  `mtl_append_inode_id_to_directory` stores it in
eight bits, so that the entry of a longer name cannot be found again;
`mtl_remove_entry_from_directory` subtracts it from the length of the directory before it has looked
for the name.

* `mtlAppendInodeIdToDirectory_roundTrip_iff`: an insertion adds the entry behind all others exactly
  if the name has at most 255 bytes;
* `mtlRemoveEntryFromDirectory_removes_iff`: a removal does what it should exactly if the name is
  there or the directory is as long as an entry of that name.
-/

namespace MetalFs

variable {db : Db} {dirInodeId : Nat} {inode : Inode} {entries : List DirEntry}
  {filename : List Byte} {inodeId : Nat}

/-! ## Insertion -/

/-- What the insertion of a name comes to: an error, or one more entry that is found together with
all others by stepping over the records and by their names. -/
structure InsertsEntry (db : Db) (dirInodeId : Nat) (entries : List DirEntry) (filename : List Byte)
    (inodeId : Nat) : Prop where
  present : filename ∈ entries.map DirEntry.name →
    mtlAppendInodeIdToDirectory db dirInodeId filename inodeId = some (.error .errorExists)
  absent : filename ∉ entries.map DirEntry.name →
    (∃ code, mtlAppendInodeIdToDirectory db dirInodeId filename inodeId = some (.error code)) ∨
    ∃ db' inode' data',
      mtlAppendInodeIdToDirectory db dirInodeId filename inodeId = some (.ok db') ∧
      mtlLoadInode db' dirInodeId = some (inode', data') ∧
      directoryEntries data' inode'.length (inode'.length + 1) none =
        entries ++ [⟨filename, inodeId⟩] ∧
      ∀ e ∈ entries ++ [⟨filename, inodeId⟩],
        mtlResolveInodeInDirectory db' dirInodeId e.name = some (.ok e.inodeId)

/-- Eight bits of a length are below 256. -/
theorem entryNameLen_lt (data : List Byte) (entry : Nat) : entryNameLen data entry < 256 := by
  have below := ofLeBytes_lt ((data.drop (entry + 8)).take 1)
  have one := List.length_take_le 1 (data.drop (entry + 8))
  exact Nat.lt_of_lt_of_le below (Nat.pow_le_pow_right (by decide) one)

theorem directoryEntries_name_lt (data : List Byte) (dataLength fuel : Nat) (entry : Option Nat) :
    ∀ e ∈ directoryEntries data dataLength fuel entry, e.name.length < 256 := by
  induction fuel generalizing entry with
  | zero =>
    intro e member
    cases member
  | succ fuel ih =>
    rw [directoryEntries]
    cases mtlLoadNextDirectoryEntry data dataLength entry with
    | none =>
      intro e member
      cases member
    | some next =>
      intro e member
      rcases List.mem_cons.mp member with same | later
      · rw [same]
        exact Nat.lt_of_le_of_lt (List.length_take_le _ _) (entryNameLen_lt data next)
      · exact ih (some next) e later

theorem insertsEntry_of_short (dir : db.DirectoryAt dirInodeId inode entries)
    (distinct : (entries.map DirEntry.name).Nodup) (small : inodeId < 2 ^ 64)
    (short : filename.length ≤ 255) : InsertsEntry db dirInodeId entries filename inodeId := by
  have appended := mtlAppendInodeIdToDirectory_eq dir filename inodeId
  refine ⟨appended.1, ?_⟩
  intro absent
  rcases appended.2 absent with ⟨data, loaded, dirData, done⟩
  have dirData' := dirData.concat (Nat.lt_succ_of_le short) small
  have distinct' : ((entries ++ [(⟨filename, inodeId⟩ : DirEntry)]).map DirEntry.name).Nodup := by
    rw [List.map_append, List.map_singleton]
    refine List.nodup_append.mpr ⟨distinct, List.nodup_singleton _, ?_⟩
    intro name old name' new same
    rw [same, List.mem_singleton.mp new] at old
    exact absent old
  refine Or.inr ⟨_, _, _, done, OrderedStore.get_put_self _ _ _, dirData'.entries_eq, ?_⟩
  intro e member
  rw [mtlResolveInodeInDirectory_eq (directoryAt_put dirData'), (lookupName_ok_iff distinct').mpr member]

/-- The stored length of a long name is another one. -/
theorem InsertsEntry.short (inserts : InsertsEntry db dirInodeId entries filename inodeId)
    (dir : db.DirectoryAt dirInodeId inode entries) : filename.length ≤ 255 := by
  by_contra long
  have absent : filename ∉ entries.map DirEntry.name := by
    intro present
    rcases dir with ⟨data, loaded, dir⟩
    rcases List.mem_map.mp present with ⟨e, member, named⟩
    have fits := (dir.fits e member).name
    rw [named] at fits
    omega
  rcases (mtlAppendInodeIdToDirectory_eq dir filename inodeId).2 absent with ⟨data, loaded, -, done⟩
  rcases inserts.absent absent with ⟨code, failed⟩ | ⟨db', inode', data', done', loaded', parsed, -⟩
  · rw [done] at failed
    cases failed
  · have member : (⟨filename, inodeId⟩ : DirEntry) ∈
        directoryEntries data' inode'.length (inode'.length + 1) none := by
      rw [parsed]
      exact List.mem_append_right entries (List.mem_singleton_self _)
    exact long (Nat.le_of_lt_succ (directoryEntries_name_lt _ _ _ _ _ member))

/-- Inserting a name is an error or makes one more entry, and all entries are found with their
inodes, exactly if the length of the name fits into its eight bits. -/
theorem mtlAppendInodeIdToDirectory_roundTrip_iff (dir : db.DirectoryAt dirInodeId inode entries)
    (distinct : (entries.map DirEntry.name).Nodup) (small : inodeId < 2 ^ 64) :
    InsertsEntry db dirInodeId entries filename inodeId ↔ filename.length ≤ 255 := by
  refine ⟨?_, ?_⟩
  · intro inserts
    exact inserts.short dir
  · intro short
    exact insertsEntry_of_short dir distinct small short

/-- The root directory of a new store. -/
def rootEntries : List DirEntry := [⟨dotName, 0⟩, ⟨dotName ++ dotName, 0⟩]

@[inherit_doc rootEntries]
def rootInode : Inode := ⟨.directory, 35, 0, 0, 0, 0, 0, 0o755 ||| sIfdir⟩

theorem rootDb_directoryAt : rootDb.DirectoryAt 0 rootInode rootEntries := by
  refine ⟨directoryEntryBytes 0 dotName ++ (directoryEntryBytes 0 (dotName ++ dotName) ++ []),
    by decide +kernel, rfl, by decide +kernel, ?_, ?_⟩
  · exact .cons (directoryEntryBytes_isRecord ⟨dotName, 0⟩)
      (.cons (directoryEntryBytes_isRecord ⟨dotName ++ dotName, 0⟩) .nil)
  · intro e member
    rcases List.mem_cons.mp member with rfl | member
    · exact ⟨by decide, by decide⟩
    · rw [List.mem_singleton.mp member]
      exact ⟨by decide, by decide⟩

theorem mtlAppendInodeIdToDirectory_roundTrip_first :
    InsertsEntry rootDb 0 rootEntries (List.replicate 255 (byte 97)) 1 :=
  (mtlAppendInodeIdToDirectory_roundTrip_iff rootDb_directoryAt (by decide) (by decide)).mpr
    List.length_replicate.le

/-- A name of 256 bytes is stored with the length 0. -/
theorem mtlAppendInodeIdToDirectory_loses_longName :
    rootDb.DirectoryAt 0 rootInode rootEntries ∧ (rootEntries.map DirEntry.name).Nodup ∧
      (∀ b ∈ List.replicate 256 (byte 97), b ≠ byte 0) ∧
      ¬ InsertsEntry rootDb 0 rootEntries (List.replicate 256 (byte 97)) 1 := by
  refine ⟨rootDb_directoryAt, by decide, ?_, ?_⟩
  · intro b member
    rw [List.eq_of_mem_replicate member]
    decide
  intro inserts
  have short := inserts.short rootDb_directoryAt
  rw [List.length_replicate] at short
  omega

/-! ## Removal -/

/-- What the removal of a name comes to. -/
structure RemovesEntry (u : Uninitialised) (db : Db) (dirInodeId : Nat) (inode : Inode)
    (entries : List DirEntry) (filename : List Byte) : Prop where
  present : ∀ inodeId, ⟨filename, inodeId⟩ ∈ entries → ∃ db' inode' data',
    mtlRemoveEntryFromDirectory u db dirInodeId filename = some (some inodeId, .ok db') ∧
    mtlLoadInode db' dirInodeId = some (inode', data') ∧
    directoryEntries data' inode'.length (inode'.length + 1) none =
      entries.erase ⟨filename, inodeId⟩ ∧
    inode'.length + (sizeofDirectoryEntryHead + filename.length) = inode.length
  absent : filename ∉ entries.map DirEntry.name →
    mtlRemoveEntryFromDirectory u db dirInodeId filename = some (none, .error .errorNoentry)

theorem withoutName_eq_erase {e : DirEntry} (distinct : (entries.map DirEntry.name).Nodup)
    (member : e ∈ entries) : withoutName entries e.name = entries.erase e := by
  rw [(List.Nodup.of_map DirEntry.name distinct).erase_eq_filter, withoutName]
  refine List.filter_congr ?_
  intro d member'
  have same_iff : d.name ≠ e.name ↔ (d != e) = true := by
    rw [bne_iff_ne, not_iff_not]
    exact ⟨fun same => List.inj_on_of_nodup_map distinct member' member same, fun same => by rw [same]⟩
  rw [Bool.eq_iff_iff, decide_eq_true_iff, same_iff]

theorem removesEntry_present (dir : db.DirectoryAt dirInodeId inode entries)
    (distinct : (entries.map DirEntry.name).Nodup) (u : Uninitialised)
    (member : ⟨filename, inodeId⟩ ∈ entries) : ∃ db' inode' data',
    mtlRemoveEntryFromDirectory u db dirInodeId filename = some (some inodeId, .ok db') ∧
    mtlLoadInode db' dirInodeId = some (inode', data') ∧
    directoryEntries data' inode'.length (inode'.length + 1) none =
      entries.erase ⟨filename, inodeId⟩ ∧
    inode'.length + (sizeofDirectoryEntryHead + filename.length) = inode.length := by
  rcases mtlRemoveEntryFromDirectory_present u dir distinct member with ⟨room, data', done, dirData⟩
  refine ⟨_, _, data', done, OrderedStore.get_put_self _ _ _, ?_, Nat.sub_add_cancel room⟩
  rw [dirData.entries_eq]
  exact withoutName_eq_erase distinct member

/-- Removing a name does what it should, also where there is no such name, exactly if the name is in
the directory or the directory is at least as long as an entry of the name. -/
theorem mtlRemoveEntryFromDirectory_removes_iff (dir : db.DirectoryAt dirInodeId inode entries)
    (distinct : (entries.map DirEntry.name).Nodup) (u : Uninitialised) :
    RemovesEntry u db dirInodeId inode entries filename ↔
      filename ∈ entries.map DirEntry.name ∨
        sizeofDirectoryEntryHead + filename.length ≤ inode.length := by
  rcases dir with ⟨data, loaded, dirData⟩
  refine ⟨?_, ?_⟩
  · intro removes
    by_contra neither
    rw [not_or, Nat.not_le] at neither
    have failed := removes.absent neither.1
    rw [mtlRemoveEntryFromDirectory_short loaded dirData.directory neither.2] at failed
    cases failed
  · intro presentOrRoom
    refine ⟨fun inodeId member => removesEntry_present ⟨data, loaded, dirData⟩ distinct u member,
      ?_⟩
    intro absent
    rcases presentOrRoom with present | room
    · exact absurd present absent
    · exact mtlRemoveEntryFromDirectory_missing loaded dirData.directory
        (dirData.missing_iff.mpr absent) room

theorem mtlRemoveEntryFromDirectory_removes_dot :
    (rootEntries.map DirEntry.name).Nodup ∧ dotName ∈ rootEntries.map DirEntry.name ∧
      RemovesEntry garbage rootDb 0 rootInode rootEntries dotName := by
  refine ⟨by decide, by decide, ?_⟩
  exact (mtlRemoveEntryFromDirectory_removes_iff rootDb_directoryAt (by decide) garbage).mpr
    (Or.inl (by decide))

/-- The length of the buffer for the root directory without an entry of 36 bytes wraps around. -/
theorem mtlRemoveEntryFromDirectory_longName :
    rootDb.DirectoryAt 0 rootInode rootEntries ∧ (rootEntries.map DirEntry.name).Nodup ∧
      byte 0 ∉ List.replicate 20 (byte 97) ∧
      mtlRemoveEntryFromDirectory garbage rootDb 0 (List.replicate 20 (byte 97)) = none ∧
      ¬ RemovesEntry garbage rootDb 0 rootInode rootEntries (List.replicate 20 (byte 97)) := by
  have stuck : mtlRemoveEntryFromDirectory garbage rootDb 0 (List.replicate 20 (byte 97)) = none := by
    rcases rootDb_directoryAt with ⟨data, loaded, dir⟩
    exact mtlRemoveEntryFromDirectory_short loaded dir.directory (by decide)
  refine ⟨rootDb_directoryAt, by decide, by decide, stuck, ?_⟩
  intro removes
  have failed := removes.absent (by decide)
  rw [stuck] at failed
  cases failed

end MetalFs
