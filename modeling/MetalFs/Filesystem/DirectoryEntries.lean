import MetalFs.Filesystem.Directory
import MetalFs.Lib.Records

/-!
# The entries of a directory

The data section of a directory is a sequence of records of different lengths, which the loops of
`inode.c` find by stepping from each one to the next.  `DirectoryAt` says that the data of an inode
is the encoding of a list of entries; what each of the loops does is then stated on that list:

* `DirectoryData.entries_eq`: stepping over the records gives the entries;
* `mtlResolveInodeInDirectory_eq`: looking up a name finds the first entry of that name;
* `mtlAppendInodeIdToDirectory_eq`: a new name becomes the last entry;
* `mtlRemoveEntryFromDirectory_present`: a name that is there is taken out of the list;
* `DirectoryData.isEmptyDirectory_eq`: there are no entries but `.` and `..`.
-/

namespace MetalFs

open Records

/-- A name and the inode it stands for. -/
structure DirEntry where
  name : List Byte
  inodeId : Nat
deriving DecidableEq, Repr

/-- The fields of the head of the entry hold its values. -/
structure DirEntry.Fits (e : DirEntry) : Prop where
  name : e.name.length < 256
  inodeId : e.inodeId < 2 ^ 64

/-- The bytes of an entry: the head, of which seven bytes are padding, and the name. -/
def IsRecord (e : DirEntry) (bytes : List Byte) : Prop :=
  ∃ padding : List Byte, padding.length = 7 ∧
    bytes = leBytes 8 e.inodeId ++ (leBytes 1 e.name.length ++ (padding ++ e.name))

theorem directoryEntryBytes_isRecord (e : DirEntry) :
    IsRecord e (directoryEntryBytes e.inodeId e.name) := by
  refine ⟨List.replicate 7 (byte 0), rfl, ?_⟩
  simp only [directoryEntryBytes, List.append_assoc]

variable {e : DirEntry} {entries : List DirEntry} {bytes before after data : List Byte}
  {entry : Option Nat} {fuel : Nat}

theorem IsRecord.length (record : IsRecord e bytes) :
    bytes.length = sizeofDirectoryEntryHead + e.name.length := by
  rcases record with ⟨padding, seven, rfl⟩
  simp only [List.length_append, length_leBytes, seven, sizeofDirectoryEntryHead]
  omega

/-! ## Stepping over the records -/

/-- The position behind an entry. -/
def nextPosition (dirData : List Byte) : Option Nat → Nat
  | none => 0
  | some entry => entry + sizeofDirectoryEntryHead + entryNameLen dirData entry

theorem mtlLoadNextDirectoryEntry_eq (dirData : List Byte) (dirDataLength : Nat)
    (entry : Option Nat) :
    mtlLoadNextDirectoryEntry dirData dirDataLength entry =
      if dirDataLength < nextPosition dirData entry + sizeofDirectoryEntryHead then none
      else some (nextPosition dirData entry) := by
  cases entry <;> rfl

/-- The fields of the record at a position of the data. -/
structure RecordAt (data : List Byte) (position : Nat) (e : DirEntry) : Prop where
  inodeId : entryInodeId data position = e.inodeId
  nameLen : entryNameLen data position = e.name.length
  name : entryName data position = e.name

theorem IsRecord.recordAt (record : IsRecord e bytes) (fits : e.Fits) (before after : List Byte) :
    RecordAt (before ++ (bytes ++ after)) before.length e := by
  rcases record with ⟨padding, seven, rfl⟩
  have drop8 : (before ++ ((leBytes 8 e.inodeId ++ (leBytes 1 e.name.length ++ (padding ++ e.name)))
      ++ after)).drop (before.length + 8) = leBytes 1 e.name.length ++ (padding ++ (e.name ++ after)) := by
    rw [← List.drop_drop, List.drop_left, List.append_assoc, List.drop_left' (length_leBytes 8 _)]
    simp only [List.append_assoc]
  have nameLen : entryNameLen (before ++ ((leBytes 8 e.inodeId ++
      (leBytes 1 e.name.length ++ (padding ++ e.name))) ++ after)) before.length =
        e.name.length := by
    rw [entryNameLen, drop8, List.take_left' (length_leBytes 1 _), ofLeBytes_leBytes]
    exact Nat.mod_eq_of_lt fits.name
  refine ⟨?_, nameLen, ?_⟩
  · rw [entryInodeId, List.drop_left, List.append_assoc, List.take_left' (length_leBytes 8 _),
      ofLeBytes_leBytes]
    exact Nat.mod_eq_of_lt fits.inodeId
  · rw [entryName, nameLen, show before.length + sizeofDirectoryEntryHead =
      before.length + 8 + (1 + 7) from rfl, ← List.drop_drop, drop8, ← List.drop_drop,
      List.drop_left' (length_leBytes 1 _), List.drop_left' seven, List.take_left]

/-- There is nothing behind the last record. -/
theorem loadNext_end (ended : nextPosition data entry = data.length) :
    mtlLoadNextDirectoryEntry data data.length entry = none := by
  rw [mtlLoadNextDirectoryEntry_eq, ended, if_pos]
  exact Nat.lt_add_of_pos_right (by decide)

/-- One step of the loops: the next record and the position behind it. -/
theorem loadNext_record (record : IsRecord e bytes) (fits : e.Fits)
    (split : data = before ++ (bytes ++ after)) (here : nextPosition data entry = before.length) :
    mtlLoadNextDirectoryEntry data data.length entry = some before.length ∧
      RecordAt data before.length e ∧
      nextPosition data (some before.length) = (before ++ bytes).length := by
  subst split
  have fields := record.recordAt fits before after
  refine ⟨?_, fields, ?_⟩
  · rw [mtlLoadNextDirectoryEntry_eq, here, if_neg]
    simp only [List.length_append, record.length]
    omega
  · rw [nextPosition, fields.nameLen, List.length_append, record.length, Nat.add_assoc]

/-- The entries that are found by stepping over the records with `mtl_load_next_directory_entry`. -/
def directoryEntries (dirData : List Byte) (dirDataLength : Nat) : Nat → Option Nat → List DirEntry
  | 0, _ => []
  | fuel + 1, entry =>
    match mtlLoadNextDirectoryEntry dirData dirDataLength entry with
    | none => []
    | some entry => ⟨entryName dirData entry, entryInodeId dirData entry⟩ ::
        directoryEntries dirData dirDataLength fuel (some entry)

theorem RecordAt.eq {position : Nat} (fields : RecordAt data position e) :
    (⟨entryName data position, entryInodeId data position⟩ : DirEntry) = e := by
  rw [fields.name, fields.inodeId]

theorem directoryEntries_encodes {rest : List Byte} (encodes : Encodes IsRecord entries rest)
    (fits : ∀ e ∈ entries, e.Fits) (split : data = before ++ rest)
    (here : nextPosition data entry = before.length) (enough : entries.length < fuel) :
    directoryEntries data data.length fuel entry = entries := by
  induction encodes generalizing before entry fuel with
  | nil =>
    rw [List.append_nil] at split
    rw [← split] at here
    cases fuel with
    | zero => rfl
    | succ fuel => rw [directoryEntries, loadNext_end here]
  | @cons e l bytes rest record later ih =>
    rw [List.forall_mem_cons] at fits
    rcases loadNext_record record fits.1 split here with ⟨loaded, fields, behind⟩
    cases fuel with
    | zero => cases enough
    | succ fuel =>
      rw [directoryEntries, loaded]
      dsimp only
      rw [fields.eq, ih fits.2 (by rw [split, List.append_assoc]) behind
        (Nat.lt_of_succ_lt_succ enough)]

/-! ## Looking up a name -/

/-- The entry has the name. -/
def DirEntry.isNamed (filename : List Byte) (e : DirEntry) : Bool := e.name = filename

theorem DirEntry.isNamed_iff {filename : List Byte} : e.isNamed filename = true ↔ e.name = filename :=
  decide_eq_true_iff

theorem RecordAt.named_iff {position : Nat} (fields : RecordAt data position e)
    (filename : List Byte) :
    (filename.length = entryNameLen data position ∧ entryName data position = filename) ↔
      e.name = filename := by
  rw [fields.nameLen, fields.name]
  refine ⟨And.right, ?_⟩
  intro named
  exact ⟨by rw [named], named⟩

theorem findDirectoryEntry_encodes {rest filename : List Byte}
    (encodes : Encodes IsRecord entries rest) (fits : ∀ e ∈ entries, e.Fits)
    (split : data = before ++ rest) (here : nextPosition data entry = before.length)
    (enough : entries.length < fuel) :
    (findDirectoryEntry data data.length filename fuel entry).map (entryInodeId data) =
      (entries.find? (DirEntry.isNamed filename)).map DirEntry.inodeId := by
  induction encodes generalizing before entry fuel with
  | nil =>
    rw [List.append_nil] at split
    rw [← split] at here
    cases fuel with
    | zero => rfl
    | succ fuel =>
      rw [findDirectoryEntry, loadNext_end here]
      rfl
  | @cons e l bytes rest record later ih =>
    rw [List.forall_mem_cons] at fits
    rcases loadNext_record record fits.1 split here with ⟨loaded, fields, behind⟩
    cases fuel with
    | zero => cases enough
    | succ fuel =>
      rw [findDirectoryEntry, loaded]
      dsimp only
      by_cases named : e.name = filename
      · rw [if_pos ((fields.named_iff filename).mpr named),
          List.find?_cons_of_pos (DirEntry.isNamed_iff.mpr named), Option.map_some, Option.map_some,
          fields.inodeId]
      · rw [if_neg (fun found => named ((fields.named_iff filename).mp found)),
          List.find?_cons_of_neg (fun found => named (DirEntry.isNamed_iff.mp found)),
          ih fits.2 (by rw [split, List.append_assoc]) behind (Nat.lt_of_succ_lt_succ enough)]

/-! ## Directories in the database -/

/-- The data of an inode are the entries of a directory. -/
structure DirectoryData (inode : Inode) (data : List Byte) (entries : List DirEntry) : Prop where
  directory : inode.type = .directory
  length : inode.length = data.length
  encodes : Encodes IsRecord entries data
  fits : ∀ e ∈ entries, e.Fits

/-- The inode is a directory with these entries. -/
def Db.DirectoryAt (db : Db) (dirInodeId : Nat) (inode : Inode) (entries : List DirEntry) : Prop :=
  ∃ data, mtlLoadInode db dirInodeId = some (inode, data) ∧ DirectoryData inode data entries

theorem DirectoryData.enough {inode : Inode} (dir : DirectoryData inode data entries) :
    entries.length < data.length + 1 := by
  have count := dir.encodes.length_le fun record => by
    rw [IsRecord.length record]
    exact Nat.le_add_right sizeofDirectoryEntryHead _
  simp only [sizeofDirectoryEntryHead] at count
  omega

theorem DirectoryData.entries_eq {inode : Inode} (dir : DirectoryData inode data entries) :
    directoryEntries data inode.length (inode.length + 1) none = entries := by
  rw [dir.length]
  exact directoryEntries_encodes dir.encodes dir.fits (List.nil_append data).symm rfl dir.enough

theorem DirectoryData.find_eq {inode : Inode} (dir : DirectoryData inode data entries)
    (filename : List Byte) :
    (findDirectoryEntry data inode.length filename (inode.length + 1) none).map
        (entryInodeId data) =
      (entries.find? (DirEntry.isNamed filename)).map DirEntry.inodeId := by
  rw [dir.length]
  exact findDirectoryEntry_encodes dir.encodes dir.fits (List.nil_append data).symm rfl dir.enough

variable {db : Db} {dirInodeId : Nat} {inode : Inode}

/-- The search for a name finds nothing exactly if no entry has it. -/
theorem DirectoryData.missing_iff {filename : List Byte} (dir : DirectoryData inode data entries) :
    findDirectoryEntry data inode.length filename (inode.length + 1) none = none ↔
      filename ∉ entries.map DirEntry.name := by
  have found := dir.find_eq filename
  rw [← @Option.map_eq_none_iff _ _ _ (entryInodeId data), found, Option.map_eq_none_iff,
    List.find?_eq_none]
  refine ⟨?_, ?_⟩
  · intro missing present
    rcases List.mem_map.mp present with ⟨e, member, named⟩
    exact missing e member (DirEntry.isNamed_iff.mpr named)
  · intro absent e member named
    exact absent (List.mem_map.mpr ⟨e, member, DirEntry.isNamed_iff.mp named⟩)

/-- What the lookup of a name in a list of entries comes to. -/
def lookupName (entries : List DirEntry) (filename : List Byte) : Except MtlCode Nat :=
  match entries.find? (DirEntry.isNamed filename) with
  | some e => .ok e.inodeId
  | none => .error .errorNoentry

theorem mtlResolveInodeInDirectory_eq (dir : db.DirectoryAt dirInodeId inode entries)
    (filename : List Byte) :
    mtlResolveInodeInDirectory db dirInodeId filename = some (lookupName entries filename) := by
  rcases dir with ⟨data, loaded, dir⟩
  have found := dir.find_eq filename
  simp only [mtlResolveInodeInDirectory, loaded, Option.bind_eq_bind, Option.bind_some, dir.directory,
    ne_eq, not_true_eq_false, if_false, lookupName]
  generalize findDirectoryEntry data inode.length filename (inode.length + 1) none = position at found
  generalize entries.find? (DirEntry.isNamed filename) = e at found
  cases position with
  | none =>
    cases e with
    | none => rfl
    | some e => cases found
  | some position =>
    cases e with
    | none => cases found
    | some e =>
      simp only [Option.map_some, Option.some.injEq] at found
      simp only [found]

theorem lookupName_error_iff {filename : List Byte} {code : MtlCode} :
    lookupName entries filename = .error code ↔
      code = .errorNoentry ∧ filename ∉ entries.map DirEntry.name := by
  unfold lookupName
  split
  · rename_i e found
    have named := DirEntry.isNamed_iff.mp (List.find?_some found)
    have member := List.mem_of_find?_eq_some found
    refine ⟨?_, ?_⟩
    · intro no
      cases no
    · intro absent
      exact absurd (List.mem_map.mpr ⟨e, member, named⟩) absent.2
  · rename_i missing
    rw [List.find?_eq_none] at missing
    have absent : filename ∉ entries.map DirEntry.name := by
      intro present
      rcases List.mem_map.mp present with ⟨e, member, named⟩
      exact missing e member (DirEntry.isNamed_iff.mpr named)
    refine ⟨?_, ?_⟩
    · intro same
      exact ⟨(Except.error.inj same).symm, absent⟩
    · intro same
      rw [same.1]

/-- Among distinct names the lookup finds exactly the entries of the list. -/
theorem lookupName_ok_iff {filename : List Byte} {id : Nat}
    (distinct : (entries.map DirEntry.name).Nodup) :
    lookupName entries filename = .ok id ↔ ⟨filename, id⟩ ∈ entries := by
  unfold lookupName
  split
  · rename_i e found
    have named := DirEntry.isNamed_iff.mp (List.find?_some found)
    have member := List.mem_of_find?_eq_some found
    refine ⟨?_, ?_⟩
    · intro same
      rw [← named, ← Except.ok.inj same]
      exact member
    · intro member'
      have same := List.inj_on_of_nodup_map distinct member member' named
      rw [same]
  · rename_i missing
    refine ⟨?_, ?_⟩
    · intro no
      cases no
    · intro member
      rw [List.find?_eq_none] at missing
      exact absurd (DirEntry.isNamed_iff.mpr rfl) (missing _ member)

/-! ## Appending an entry -/

theorem directoryAt_put {data : List Byte} (dir : DirectoryData inode data entries) :
    (mtlPutInode db dirInodeId inode data).DirectoryAt dirInodeId inode entries :=
  ⟨data, OrderedStore.get_put_self _ _ _, dir⟩

/-- The directory with one more entry of a name and a number that fit. -/
theorem DirectoryData.concat (dir : DirectoryData inode data entries) {filename : List Byte}
    {inodeId : Nat} (short : filename.length < 256) (small : inodeId < 2 ^ 64) :
    DirectoryData { inode with length := inode.length + sizeofDirectoryEntryHead + filename.length }
      (data.take inode.length ++ directoryEntryBytes inodeId filename)
      (entries ++ [⟨filename, inodeId⟩]) := by
  have record := directoryEntryBytes_isRecord ⟨filename, inodeId⟩
  have whole : data.take inode.length = data := by
    rw [dir.length, List.take_length]
  refine ⟨dir.directory, ?_, ?_, ?_⟩
  · dsimp only
    rw [whole, List.length_append, record.length, dir.length, Nat.add_assoc]
  · rw [whole]
    exact dir.encodes.concat record
  · intro e member
    rcases List.mem_append.mp member with old | new
    · exact dir.fits e old
    · rw [List.mem_singleton.mp new]
      exact ⟨short, small⟩

/-- What `mtl_append_inode_id_to_directory` does to a directory. -/
theorem mtlAppendInodeIdToDirectory_eq (dir : db.DirectoryAt dirInodeId inode entries)
    (filename : List Byte) (inodeId : Nat) :
    (filename ∈ entries.map DirEntry.name →
      mtlAppendInodeIdToDirectory db dirInodeId filename inodeId = some (.error .errorExists)) ∧
    (filename ∉ entries.map DirEntry.name → ∃ data,
      mtlLoadInode db dirInodeId = some (inode, data) ∧ DirectoryData inode data entries ∧
      mtlAppendInodeIdToDirectory db dirInodeId filename inodeId =
        some (.ok (mtlPutInode db dirInodeId
          { inode with length := inode.length + sizeofDirectoryEntryHead + filename.length }
          (data.take inode.length ++ directoryEntryBytes inodeId filename)))) := by
  rcases dir with ⟨data, loaded, dir⟩
  refine ⟨?_, ?_⟩
  · intro present
    cases position : findDirectoryEntry data inode.length filename (inode.length + 1) none with
    | none => exact absurd present (dir.missing_iff.mp position)
    | some position' =>
      simp only [mtlAppendInodeIdToDirectory, loaded, Option.bind_eq_bind, Option.bind_some,
        dir.directory, ne_eq, not_true_eq_false, if_false, position]
  · intro absent
    refine ⟨data, loaded, dir, ?_⟩
    simp only [mtlAppendInodeIdToDirectory, loaded, Option.bind_eq_bind, Option.bind_some,
      dir.directory, ne_eq, not_true_eq_false, if_false, dir.missing_iff.mpr absent]

/-! ## Removing an entry -/

/-- The entries of other names. -/
def withoutName (entries : List DirEntry) (filename : List Byte) : List DirEntry :=
  entries.filter fun e => e.name ≠ filename

theorem withoutName_cons_named {filename : List Byte} (named : e.name = filename) :
    withoutName (e :: entries) filename = withoutName entries filename :=
  List.filter_cons_of_neg fun other => of_decide_eq_true other named

theorem withoutName_cons_other {filename : List Byte} (other : e.name ≠ filename) :
    withoutName (e :: entries) filename = e :: withoutName entries filename :=
  List.filter_cons_of_pos (decide_eq_true other)

/-- What is left in `*inode_id` by the entries of the name. -/
def writtenInodeId (filename : List Byte) (inodeId : Option Nat) (entries : List DirEntry) :
    Option Nat :=
  entries.foldl (fun inodeId e => if e.name = filename then some e.inodeId else inodeId) inodeId

/-- The loop copies the entries of other names, as long as they fit. -/
theorem removeEntryLoop_encodes {rest : List Byte} (filename : List Byte) (newDataLength : Nat)
    (encodes : Encodes IsRecord entries rest) (fits : ∀ e ∈ entries, e.Fits) :
    ∃ kept, Encodes IsRecord (withoutName entries filename) kept ∧
      ∀ (before newData : List Byte) (entry : Option Nat) (fuel offset : Nat)
        (inodeId : Option Nat), data = before ++ rest → nextPosition data entry = before.length →
        entries.length < fuel → offset + kept.length ≤ newDataLength →
        removeEntryLoop data data.length filename newDataLength fuel entry offset newData inodeId =
          (writtenInodeId filename inodeId entries, .ok (newData ++ kept)) := by
  induction encodes with
  | nil =>
    refine ⟨[], .nil, ?_⟩
    intro before newData entry fuel offset inodeId split here enough room
    rw [List.append_nil] at split
    rw [← split] at here
    cases fuel with
    | zero => cases enough
    | succ fuel =>
      rw [removeEntryLoop, loadNext_end here, List.append_nil]
      rfl
  | @cons e l bytes rest record later ih =>
    rw [List.forall_mem_cons] at fits
    rcases ih fits.2 with ⟨kept, encoded, looped⟩
    by_cases named : e.name = filename
    · refine ⟨kept, ?_, ?_⟩
      · rw [withoutName_cons_named named]
        exact encoded
      intro before newData entry fuel offset inodeId split here enough room
      rcases loadNext_record record fits.1 split here with ⟨loaded, fields, behind⟩
      cases fuel with
      | zero => cases enough
      | succ fuel =>
        rw [removeEntryLoop, loaded]
        dsimp only
        rw [if_pos ((fields.named_iff filename).mpr named), fields.inodeId,
          looped _ _ _ _ _ _ (by rw [split, List.append_assoc]) behind (Nat.lt_of_succ_lt_succ enough) room,
          writtenInodeId, writtenInodeId, List.foldl_cons, if_pos named]
    · refine ⟨bytes ++ kept, ?_, ?_⟩
      · rw [withoutName_cons_other named]
        exact .cons record encoded
      intro before newData entry fuel offset inodeId split here enough room
      rcases loadNext_record record fits.1 split here with ⟨loaded, fields, behind⟩
      have length := record.length
      rw [List.length_append] at room
      have copied : (data.drop before.length).take (sizeofDirectoryEntryHead + e.name.length) =
          bytes := by
        rw [split, List.drop_left, ← length, List.take_left]
      cases fuel with
      | zero => cases enough
      | succ fuel =>
        rw [removeEntryLoop, loaded]
        dsimp only
        rw [if_neg (fun found => named ((fields.named_iff filename).mp found)), fields.nameLen,
          if_neg (by omega), copied,
          looped _ _ _ _ _ _ (by rw [split, List.append_assoc]) behind (Nat.lt_of_succ_lt_succ enough)
            (by omega), writtenInodeId, writtenInodeId, List.foldl_cons, if_neg named,
          List.append_assoc]

/-- An entry in a list of distinct names is between entries of other names. -/
theorem split_of_mem (distinct : (entries.map DirEntry.name).Nodup) (member : e ∈ entries) :
    ∃ first last, entries = first ++ e :: last ∧ withoutName entries e.name = first ++ last ∧
      e.name ∉ last.map DirEntry.name := by
  rcases List.append_of_mem member with ⟨first, last, rfl⟩
  rw [List.map_append, List.map_cons, List.nodup_append] at distinct
  rcases distinct with ⟨-, distinct, different⟩
  rw [List.nodup_cons] at distinct
  have others : ∀ l : List DirEntry, e.name ∉ l.map DirEntry.name →
      l.filter (fun d => d.name ≠ e.name) = l := by
    intro l absent
    rw [List.filter_eq_self]
    intro d member'
    refine decide_eq_true ?_
    intro same
    exact absent (List.mem_map.mpr ⟨d, member', same⟩)
  have absent : e.name ∉ first.map DirEntry.name := by
    intro present
    exact different _ present _ List.mem_cons_self rfl
  refine ⟨first, last, rfl, ?_, distinct.1⟩
  rw [withoutName, List.filter_append, others first absent]
  exact congrArg (first ++ ·) ((withoutName_cons_named rfl).trans (others last distinct.1))

theorem writtenInodeId_absent {filename : List Byte} {inodeId : Option Nat}
    (absent : filename ∉ entries.map DirEntry.name) :
    writtenInodeId filename inodeId entries = inodeId := by
  induction entries with
  | nil => rfl
  | cons e l ih =>
    rw [List.map_cons, List.mem_cons, not_or] at absent
    rw [writtenInodeId, List.foldl_cons, if_neg (Ne.symm absent.1)]
    exact ih absent.2

theorem encodes_isRecord_length (encodes : Encodes IsRecord entries data) :
    data.length = (entries.map fun e => sizeofDirectoryEntryHead + e.name.length).sum :=
  encodes.length_eq _ IsRecord.length

/-- An entry that is there is taken out of the directory. -/
theorem mtlRemoveEntryFromDirectory_present {filename : List Byte} {inodeId : Nat}
    (u : Uninitialised) (dir : db.DirectoryAt dirInodeId inode entries)
    (distinct : (entries.map DirEntry.name).Nodup) (member : ⟨filename, inodeId⟩ ∈ entries) :
    sizeofDirectoryEntryHead + filename.length ≤ inode.length ∧ ∃ data,
      mtlRemoveEntryFromDirectory u db dirInodeId filename = some (some inodeId,
        .ok (mtlPutInode db dirInodeId
          { inode with length := inode.length - (sizeofDirectoryEntryHead + filename.length) }
          data)) ∧
      DirectoryData
        { inode with length := inode.length - (sizeofDirectoryEntryHead + filename.length) } data
        (withoutName entries filename) := by
  rcases dir with ⟨data, loaded, dir⟩
  rcases split_of_mem distinct member with ⟨first, last, split, others, absent⟩
  dsimp only at others absent
  rcases removeEntryLoop_encodes filename
    (inode.length - (sizeofDirectoryEntryHead + filename.length)) dir.encodes dir.fits with
    ⟨kept, encoded, looped⟩
  -- the entries that are kept fill the shorter buffer
  have length : data.length = kept.length + (sizeofDirectoryEntryHead + filename.length) := by
    rw [encodes_isRecord_length dir.encodes, encodes_isRecord_length encoded, others, split]
    simp only [List.map_append, List.map_cons, List.sum_append, List.sum_cons]
    omega
  have room : sizeofDirectoryEntryHead + filename.length ≤ inode.length := by
    rw [dir.length, length]
    exact Nat.le_add_left _ _
  have newLength : inode.length - (sizeofDirectoryEntryHead + filename.length) = kept.length := by
    rw [dir.length, length, Nat.add_sub_cancel]
  have written : writtenInodeId filename none entries = some inodeId := by
    rw [split, writtenInodeId, List.foldl_append, List.foldl_cons, if_pos rfl]
    exact writtenInodeId_absent absent
  have result := looped [] [] none _ 0 none (List.nil_append data).symm rfl dir.enough
    (by rw [newLength, Nat.zero_add])
  rw [written, List.nil_append, ← dir.length, newLength] at result
  refine ⟨room, kept, ?_, dir.directory, newLength, encoded, ?_⟩
  · simp only [mtlRemoveEntryFromDirectory, loaded, Option.bind_eq_bind, Option.bind_some,
      dir.directory, ne_eq, not_true_eq_false, if_false, if_neg (Nat.not_lt.mpr room), result,
      newLength, Nat.sub_self, List.range'_zero, List.map_nil, List.append_nil]
  · intro e member
    exact dir.fits e (List.mem_of_mem_filter member)

/-! ## Empty directories -/

/-- The entry is `.` or `..`. -/
def DirEntry.isDot (e : DirEntry) : Bool := e.name = dotName ∨ e.name = dotName ++ dotName

theorem RecordAt.isDot_iff {position : Nat} (fields : RecordAt data position e) :
    (entryNameLen data position = 1 ∧ entryName data position = dotName ∨
      entryNameLen data position = 2 ∧ entryName data position = dotName ++ dotName) ↔
      e.isDot = true := by
  rw [fields.nameLen, fields.name, DirEntry.isDot, decide_eq_true_iff]
  refine or_congr ⟨And.right, ?_⟩ ⟨And.right, ?_⟩
  · intro named
    exact ⟨by rw [named]; rfl, named⟩
  · intro named
    exact ⟨by rw [named]; rfl, named⟩

theorem isEmptyDirectory_encodes {rest : List Byte} (encodes : Encodes IsRecord entries rest)
    (fits : ∀ e ∈ entries, e.Fits) (split : data = before ++ rest)
    (here : nextPosition data entry = before.length) (enough : entries.length < fuel) :
    isEmptyDirectory data data.length fuel entry = entries.all DirEntry.isDot := by
  induction encodes generalizing before entry fuel with
  | nil =>
    rw [List.append_nil] at split
    rw [← split] at here
    cases fuel with
    | zero => rfl
    | succ fuel =>
      rw [isEmptyDirectory, loadNext_end here]
      rfl
  | @cons e l bytes rest record later ih =>
    rw [List.forall_mem_cons] at fits
    rcases loadNext_record record fits.1 split here with ⟨loaded, fields, behind⟩
    cases fuel with
    | zero => cases enough
    | succ fuel =>
      rw [isEmptyDirectory, loaded, List.all_cons]
      dsimp only
      by_cases dots : e.isDot = true
      · rw [if_pos (fields.isDot_iff.mpr dots), dots, Bool.true_and,
          ih fits.2 (by rw [split, List.append_assoc]) behind (Nat.lt_of_succ_lt_succ enough)]
      · rw [if_neg (fun found => dots (fields.isDot_iff.mp found)), Bool.eq_false_iff.mpr dots,
          Bool.false_and]

theorem DirectoryData.isEmptyDirectory_eq (dir : DirectoryData inode data entries) :
    isEmptyDirectory data inode.length (inode.length + 1) none = entries.all DirEntry.isDot := by
  rw [dir.length]
  exact isEmptyDirectory_encodes dir.encodes dir.fits (List.nil_append data).symm rfl dir.enough

end MetalFs
