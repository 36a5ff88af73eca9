import MetalFs.Filesystem.FileRuns

/-!
# A file is a byte string

`FileContent` says what a file is for: it has a length, and at some positions a
byte was written and not cut off since.  `Refines` relates the file system to the
contents its files should have, and every run of operations that are admissible
and `Ok` keeps the relation (`fs_run_behaves`).

An operation is `Ok` when it does not end inside the last allocated block behind
the current length, where `mtl_expand_inode` does not update the length of the
inode, and when all its allocator calls keep the allocator's invariant.
-/

namespace MetalFs

open Segments

/-! ## Abstract files -/

/-- The contents of a file: its length and the bytes that were written. -/
structure FileContent where
  length : Nat
  bytes : Nat → Option Byte

namespace FileContent

/-- A file that was just created. -/
def empty : FileContent := ⟨0, fun _ => none⟩

/-- The contents after a write. -/
def write (c : FileContent) (buffer : List Byte) (offset : Nat) : FileContent where
  length := max c.length (offset + buffer.length)
  bytes p := if offset ≤ p ∧ p < offset + buffer.length then buffer[p - offset]? else c.bytes p

/-- The contents after a truncation; nothing is known about a hole. -/
def truncate (c : FileContent) (offset : Nat) : FileContent where
  length := offset
  bytes p := if p < offset then c.bytes p else none

/-- The result of a read: all bytes up to the end of the file, and each of them as
it was written. -/
def Reads (c : FileContent) (size offset : Nat) (result : List Byte) : Prop :=
  result.length = min size (c.length - offset) ∧
    ∀ i b, i < result.length → c.bytes (offset + i) = some b → result[i]? = some b

end FileContent

/-- The contents of all files that were created. -/
abbrev Files := Nat → Option FileContent

/-- The contents after an operation, which for `mtl_create` depend on the inode id
it returns. -/
def FsOp.expect (fs : Fs) (files : Files) : FsOp → Files
  | create filename mode now =>
    match mtlCreate fs.db filename mode now with
    | some (.ok (id, _)) => Function.update files id (some .empty)
    | _ => files
  | write id buffer offset =>
    Function.update files id ((files id).map fun c => c.write buffer offset)
  | truncate id offset => Function.update files id ((files id).map fun c => c.truncate offset)
  | read _ _ _ => files

/-- One operation, with the contents that are expected beside the state. -/
def FsOp.observe (s : Fs × Files) (op : FsOp) : Option (Fs × Files) :=
  (op.step s.1).map fun fs => (fs, op.expect s.1 s.2)

/-- The file has the expected length and every read returns what is expected. -/
def Behaves (fs : Fs) (id : Nat) (c : FileContent) : Prop :=
  (∃ inode l, mtlLoadFile fs.db id = some (inode, l) ∧ inode.length = c.length) ∧
    ∀ size offset, offset + size < numBlocks * blockSize →
      ∃ result, mtlRead fs id size offset = some result ∧ c.Reads size offset result

/-! ## The conditions on an operation -/

/-- There are enough free blocks for `bytes` bytes, and the file stays within
`MTL_MAX_EXTENTS` extents. -/
def HasRoom (db : Db) (id bytes : Nat) : Prop :=
  ∀ r ∈ mtlLoadFile db id, missingBlocks r.2 bytes ≤ db.allocator.freeBlocks ∧
    ∀ db' ∈ mtlExpandInode mtlStorageGetMetadata db id r.2 bytes,
      ∀ r' ∈ mtlLoadFile db' id, r'.2.length ≤ mtlMaxExtents

/-- The operation is on a file that was created, stays below the device size and has
room. -/
def FsOp.Admissible (s : Fs × Files) : FsOp → Prop
  | create filename mode now => (mtlCreate s.1.db filename mode now).isSome
  | write id buffer offset => (s.2 id).isSome ∧
      offset + buffer.length < numBlocks * blockSize ∧
      HasRoom s.1.db id (offset + buffer.length)
  | truncate id offset => (s.2 id).isSome ∧ offset < numBlocks * blockSize ∧
      ∀ r ∈ mtlLoadFile s.1.db id, r.1.length ≤ offset → HasRoom s.1.db id offset
  | read id size offset => (s.2 id).isSome ∧ offset + size < numBlocks * blockSize

/-- Growing a file to `bytes` bytes updates its length and keeps the allocator's
invariant: the new end is not behind the current length in blocks the file has. -/
def ExpandOk (db : Db) (id bytes : Nat) : Prop :=
  ∀ r ∈ mtlLoadFile db id,
    (bytes ≤ r.1.length ∨ blockCount r.2 * blockSize < bytes) ∧
      GrowOk (missingBlocks r.2 bytes) db.allocator (r.2.getLastD ⟨0, 0⟩) (missingBlocks r.2 bytes)

/-- The operation keeps the file a byte string. -/
def FsOp.Ok (fs : Fs) : FsOp → Prop
  | create _ _ _ => True
  | write id buffer offset => ExpandOk fs.db id (offset + buffer.length)
  | truncate id offset => ∀ r ∈ mtlLoadFile fs.db id,
      if r.1.length ≤ offset then ExpandOk fs.db id offset
      else CallsOk fs.db.allocator (shrinkCalls blockSize offset r.2 0)
  | read _ _ _ => True

/-! ## The conditions can be evaluated -/

instance (a : Allocator) (calls : List AllocOp) : Decidable (CallsOk a calls) :=
  inferInstanceAs (Decidable (Runs.Steps _ _ _ _))

instance (db : Db) (id bytes : Nat) : Decidable (HasRoom db id bytes) :=
  inferInstanceAs (Decidable (∀ r ∈ mtlLoadFile db id, _ ∧ ∀ db' ∈ _, ∀ r' ∈ mtlLoadFile db' id, _))

instance (db : Db) (id bytes : Nat) : Decidable (ExpandOk db id bytes) :=
  inferInstanceAs (Decidable (∀ r ∈ mtlLoadFile db id, _ ∧ _))

instance (s : Fs × Files) (op : FsOp) : Decidable (op.Admissible s) :=
  match op with
  | .create _ _ _ => inferInstanceAs (Decidable (_ = true))
  | .write _ _ _ => inferInstanceAs (Decidable (_ ∧ _ ∧ HasRoom _ _ _))
  | .truncate id offset => inferInstanceAs (Decidable (_ ∧ _ ∧
      ∀ r ∈ mtlLoadFile s.1.db id, r.1.length ≤ offset → HasRoom _ _ _))
  | .read _ _ _ => inferInstanceAs (Decidable (_ ∧ _))

instance (fs : Fs) (op : FsOp) : Decidable (op.Ok fs) :=
  match op with
  | .create _ _ _ => inferInstanceAs (Decidable True)
  | .write _ _ _ => inferInstanceAs (Decidable (ExpandOk _ _ _))
  | .truncate id offset => inferInstanceAs (Decidable (∀ r ∈ mtlLoadFile fs.db id,
      if r.1.length ≤ offset then ExpandOk _ _ _ else CallsOk _ _))
  | .read _ _ _ => inferInstanceAs (Decidable True)

/-! ## The refinement -/

/-- Every written byte of the file is stored where its extents have it. -/
def Stored (storage : Storage) (l : List FileExtent) (c : FileContent) : Prop :=
  ∀ p b, c.bytes p = some b → ∃ x, locate (byteSegments l) p = some x ∧ storage x = b

/-- The file system has the files with the contents they should have. -/
structure Refines (fs : Fs) (files : Files) : Prop where
  inv : fs.db.Inv mtlStorageGetMetadata
  file : ∀ {id c}, files id = some c → ∃ inode l, fs.db.FileAt id inode l ∧
    inode.length = c.length ∧ l.length ≤ mtlMaxExtents ∧ Stored fs.storage l c

theorem Refines.behaves {fs : Fs} {files : Files} (refines : Refines fs files) {id : Nat}
    {c : FileContent} (expected : files id = some c) : Behaves fs id c := by
  obtain ⟨inode, l, file, length, short, stored⟩ := refines.file expected
  refine ⟨⟨inode, l, file.1, length⟩, ?_⟩
  intro size offset device
  obtain ⟨result, read, count, content⟩ := mtlRead_spec refines.inv file short device
  refine ⟨result, read, by rw [count, length], ?_⟩
  intro i b small written
  obtain ⟨x, located, here⟩ := stored _ _ written
  rw [content i x small located, here]

/-- A file keeps its bytes when its extents grow and their device bytes stay. -/
theorem Stored.mono {storage storage' : Storage} {l l' : List FileExtent} {c c' : FileContent}
    (stored : Stored storage l c)
    (located : ∀ p x, (c'.bytes p).isSome → locate (byteSegments l) p = some x →
      locate (byteSegments l') p = some x)
    (same : ∀ p x, (c'.bytes p).isSome → locate (byteSegments l) p = some x →
      storage' x = storage x)
    (fewer : ∀ p b, c'.bytes p = some b → c.bytes p = some b) : Stored storage' l' c' := by
  intro p b written
  obtain ⟨x, here, byte⟩ := stored p b (fewer p b written)
  have isSome : (c'.bytes p).isSome := by rw [written]; rfl
  exact ⟨x, located p x isSome here, by rw [same p x isSome here, byte]⟩

/-- An operation on the file `id` that only writes device bytes of this file. -/
theorem Refines.update {fs : Fs} {files : Files} (refines : Refines fs files) (fs' : Fs) {id : Nat}
    (inv : fs'.db.Inv mtlStorageGetMetadata) (frame : Db.Frame id fs.db fs'.db) {inode : Inode}
    {l : List FileExtent} (file : fs'.db.FileAt id inode l) (short : l.length ≤ mtlMaxExtents)
    (outside : ∀ x, (∀ e ∈ l, ¬ e.byteSegment.Contains x) → fs'.storage x = fs.storage x)
    {c : FileContent} (length : inode.length = c.length) (stored : Stored fs'.storage l c) :
    Refines fs' (Function.update files id (some c)) := by
  refine ⟨inv, ?_⟩
  intro other c' expected
  by_cases this : other = id
  · subst this
    rw [Function.update_self] at expected
    cases expected
    exact ⟨inode, l, file, length, short, stored⟩
  · rw [Function.update_of_ne this] at expected
    obtain ⟨inode', l', file', length', short', stored'⟩ := refines.file expected
    have kept : fs'.db.FileAt other inode' l' := (frame.fileAt this).mpr file'
    refine ⟨inode', l', kept, length', short', stored'.mono (fun _ _ _ located => located) ?_
      (fun _ _ written => written)⟩
    intro p x _ located
    refine outside x ?_
    intro e member contains
    obtain ⟨segment, inList, contains'⟩ := locate_mem located
    obtain ⟨e', member', rfl⟩ := List.mem_map.mp inList
    exact ((inv.disjoint_of_ne kept file this member' member).scale blockSize) x contains' contains

variable {fs : Fs} {files : Files} {id : Nat}

/-- The position of a byte of the file is the same after it has grown. -/
theorem Expanded.locate {bytes : Nat} {db db' : Db} {inode inode' : Inode} {l l' : List FileExtent}
    (expanded : Expanded mtlStorageGetMetadata id bytes db inode l db' inode' l') {p x : Nat}
    (located : locate (byteSegments l) p = some x) : locate (byteSegments l') p = some x := by
  have initial := expanded.isPrefix.scale (k := blockSize) (by decide)
  rw [← byteSegments_eq, ← byteSegments_eq] at initial
  rw [← initial p (lt_total located), located]

/-- The length that growing gives, where the operation is `Ok`. -/
theorem Expanded.length_eq {bytes : Nat} {db db' : Db} {inode inode' : Inode}
    {l l' : List FileExtent} (inv : db.Inv mtlStorageGetMetadata) (file : db.FileAt id inode l)
    (expanded : Expanded mtlStorageGetMetadata id bytes db inode l db' inode' l')
    (ok : bytes ≤ inode.length ∨ blockCount l * blockSize < bytes) :
    inode'.length = max inode.length bytes := by
  have covered : inode.length ≤ blockCount l * blockSize := inv.covered file
  have missing : blockCount l < blocksFor blockSize bytes ↔ blockCount l * blockSize < bytes := by
    rw [← Nat.not_le, blocksFor_le_iff (by decide), Nat.not_le]
  have lengthEq : inode'.length =
    if blockCount l < blocksFor blockSize bytes then bytes else inode.length := expanded.length
  rw [lengthEq]
  split
  · rename_i grown
    have := missing.mp grown
    omega
  · rename_i kept
    rw [missing] at kept
    omega

theorem create_refines (refines : Refines fs files) {filename : List Byte} {mode : Nat} {now : Int}
    (returns : (mtlCreate fs.db filename mode now).isSome) :
    ∃ fs', (FsOp.create filename mode now).step fs = some fs' ∧
      Refines fs' ((FsOp.create filename mode now).expect fs files) := by
  obtain ⟨result, returned⟩ := Option.isSome_iff_exists.mp returns
  cases result with
  | error code =>
    refine ⟨fs, by simp only [FsOp.step, returned, Option.map_some], ?_⟩
    simpa only [FsOp.expect, returned] using refines
  | ok created =>
    obtain ⟨id, db'⟩ := created
    have spec := mtlCreate_spec refines.inv returned
    refine ⟨{ fs with db := db' }, by simp only [FsOp.step, returned, Option.map_some], ?_⟩
    simp only [FsOp.expect, returned]
    refine ⟨spec.inv, ?_⟩
    intro other c expected
    by_cases this : other = id
    · subst this
      rw [Function.update_self] at expected
      cases expected
      obtain ⟨inode, file, length⟩ := spec.file
      exact ⟨inode, [], file, length, Nat.zero_le _, fun p b written => by cases written⟩
    · rw [Function.update_of_ne this] at expected
      obtain ⟨inode, l, file, rest⟩ := refines.file expected
      exact ⟨inode, l, (spec.others this).mpr file, rest⟩

theorem write_refines (refines : Refines fs files) {buffer : List Byte} {offset : Nat}
    (admissible : (FsOp.write id buffer offset).Admissible (fs, files))
    (ok : (FsOp.write id buffer offset).Ok fs) :
    ∃ fs', (FsOp.write id buffer offset).step fs = some fs' ∧
      Refines fs' ((FsOp.write id buffer offset).expect fs files) := by
  obtain ⟨known, device, hasRoom⟩ := admissible
  obtain ⟨c, expected⟩ := Option.isSome_iff_exists.mp known
  simp only at expected
  obtain ⟨inode, l, file, length, _, stored⟩ := refines.file expected
  obtain ⟨room, shortAfter⟩ := hasRoom _ file.1
  obtain ⟨lengthOk, growOk⟩ := ok _ file.1
  obtain ⟨fs', inode', l', written, expanded, short, content, frame⟩ :=
    mtlWrite_spec refines.inv file device room shortAfter growOk
  refine ⟨fs', written, ?_⟩
  simp only [FsOp.expect, expected, Option.map_some]
  refine refines.update fs' expanded.inv expanded.frame expanded.file short ?_ ?_ ?_
  · intro x outside
    refine frame x ?_
    intro i _ located
    obtain ⟨segment, inList, contains⟩ := locate_mem located
    obtain ⟨e, member, rfl⟩ := List.mem_map.mp inList
    exact outside e member contains
  · rw [expanded.length_eq refines.inv file lengthOk, length]
    rfl
  · intro p b here
    have inj := fun {i j x} => locate_inj (i := i) (j := j) (x := x)
      (expanded.inv.byteSegments_disjoint expanded.file)
    simp only [FileContent.write] at here
    split at here
    · rename_i range
      -- A written position: the extents hold the whole range after the expansion.
      have small : p - offset < buffer.length := by omega
      have fits : offset + buffer.length ≤ blockCount l' * blockSize := by
        rw [← blocksFor_le_iff (by decide), expanded.blocks]
        exact le_max_right _ _
      obtain ⟨x, located⟩ := exists_locate (l := byteSegments l') (i := p) (by
        rw [total_byteSegments_eq]; omega)
      refine ⟨x, located, ?_⟩
      rw [content (p - offset) x small (by rw [Nat.add_sub_cancel' range.1]; exact located)]
      rw [List.getElem?_eq_getElem small] at here
      exact Option.some.inj here
    · rename_i outside
      obtain ⟨x, located, byte⟩ := stored p b here
      refine ⟨x, expanded.locate located, ?_⟩
      rw [frame x, byte]
      intro i small again
      have same := inj again (expanded.locate located)
      omega

theorem Shrunk.locate {offset : Nat} {db db' : Db} {inode : Inode} {l l' : List FileExtent}
    (shrunk : Shrunk mtlStorageGetMetadata id offset db inode l db' l') {p x : Nat}
    (below : p < offset) (located : locate (byteSegments l) p = some x) :
    locate (byteSegments l') p = some x := by
  have initial := shrunk.isPrefix.scale (k := blockSize) (by decide)
  rw [← byteSegments_eq, ← byteSegments_eq] at initial
  have holds : offset ≤ blockCount l' * blockSize := by
    rw [← blocksFor_le_iff (by decide), shrunk.blocks]
    exact le_refl _
  rw [initial p (by rw [total_byteSegments_eq]; omega), located]

theorem truncate_refines (refines : Refines fs files) {offset : Nat}
    (admissible : (FsOp.truncate id offset).Admissible (fs, files))
    (ok : (FsOp.truncate id offset).Ok fs) :
    ∃ fs', (FsOp.truncate id offset).step fs = some fs' ∧
      Refines fs' ((FsOp.truncate id offset).expect fs files) := by
  obtain ⟨known, device, hasRoom⟩ := admissible
  obtain ⟨c, expected⟩ := Option.isSome_iff_exists.mp known
  simp only at expected hasRoom
  obtain ⟨inode, l, file, length, short, stored⟩ := refines.file expected
  have growOrShrink := ok _ file.1
  simp only [FsOp.expect, expected, Option.map_some]
  by_cases long : inode.length ≤ offset
  · rw [if_pos long] at growOrShrink
    obtain ⟨room, shortAfter⟩ := hasRoom _ file.1 long _ file.1
    obtain ⟨lengthOk, growOk⟩ := growOrShrink _ file.1
    have small : offset < 2 ^ 64 := by
      simp only [numBlocks, blockSize] at device
      omega
    rcases mtlExpandInode_cases refines.inv file small growOk with
      ⟨_, lacking⟩ | ⟨db', inode', l', expandedTo, expanded⟩
    · simp only at room
      omega
    · refine ⟨{ fs with db := db' }, ?_, ?_⟩
      · simp only [FsOp.step, mtlTruncate_grow file long, expandedTo, Option.map_some]
      · refine refines.update { fs with db := db' } expanded.inv expanded.frame expanded.file
          (shortAfter db' expandedTo _ expanded.file.1) (fun _ _ => rfl) ?_ ?_
        · rw [expanded.length_eq refines.inv file lengthOk]
          exact max_eq_right long
        · refine stored.mono (fun p x _ => expanded.locate) (fun _ _ _ _ => rfl) ?_
          intro p b here
          simp only [FileContent.truncate] at here
          split at here
          · exact here
          · cases here
  · rw [if_neg long] at growOrShrink
    obtain ⟨db', l', truncated, shrunk⟩ :=
      mtlTruncate_shrink refines.inv file (Nat.not_le.mp long) growOrShrink
    refine ⟨{ fs with db := db' }, ?_, ?_⟩
    · simp only [FsOp.step, truncated, Option.map_some]
    · have below : ∀ p, ((c.truncate offset).bytes p).isSome → p < offset := by
        intro p isSome
        simp only [FileContent.truncate] at isSome
        split at isSome
        · assumption
        · cases isSome
      refine refines.update { fs with db := db' } shrunk.inv shrunk.frame shrunk.file ?_
        (fun _ _ => rfl) rfl ?_
      · exact le_trans shrunk.length_le short
      · refine stored.mono (fun p x isSome => shrunk.locate (below p isSome))
          (fun _ _ _ _ => rfl) ?_
        intro p b here
        simp only [FileContent.truncate] at here
        split at here
        · exact here
        · cases here

/-- An admissible operation that is `Ok` returns and keeps the refinement. -/
theorem observe_refines {op : FsOp} (refines : Refines fs files)
    (admissible : op.Admissible (fs, files)) (ok : op.Ok fs) :
    ∃ s, op.observe (fs, files) = some s ∧ Refines s.1 s.2 := by
  have step : ∃ fs', op.step fs = some fs' ∧ Refines fs' (op.expect fs files) := by
    cases op with
    | create filename mode now => exact create_refines refines admissible
    | write id buffer offset => exact write_refines refines admissible ok
    | truncate id offset => exact truncate_refines refines admissible ok
    | read id size offset =>
      obtain ⟨known, device⟩ := admissible
      obtain ⟨c, expected⟩ := Option.isSome_iff_exists.mp known
      obtain ⟨result, read, _⟩ := (refines.behaves expected).2 size offset device
      exact ⟨fs, by simp only [FsOp.step, read, Option.map_some], refines⟩
  obtain ⟨fs', returned, refines'⟩ := step
  exact ⟨(fs', op.expect fs files), by simp only [FsOp.observe, returned, Option.map_some],
    refines'⟩

/-- The file system after `mtl_initialize` of an empty store; the buffer of the backend
holds whatever `malloc` left there. -/
def freshFs (now : Int) (storage : Storage) : Option Fs :=
  (mtlInitialize emptyDb mtlStorageGetMetadata now).map fun db => { db, storage }

theorem freshFs_refines (now : Int) (storage : Storage) :
    ∃ fs, freshFs now storage = some fs ∧ Refines fs fun _ => none := by
  obtain ⟨db, returned, inv, _⟩ := mtlInitialize_spec mtlStorageGetMetadata (by decide) now
  exact ⟨⟨db, storage⟩, by simp only [freshFs, returned, Option.map_some], inv,
    fun expected => by cases expected⟩

/-- In every run of operations that are admissible and `Ok`, every operation returns
and every file behaves as the byte string that was written to it. -/
theorem fs_run_behaves {now : Int} {storage : Storage} {fs : Fs}
    (fresh : freshFs now storage = some fs) {ops : List FsOp}
    (steps : Runs.Steps FsOp.observe (fun s op => op.Admissible s ∧ op.Ok s.1)
      (fs, fun _ => none) ops) :
    ∃ s, Runs.run FsOp.observe (fs, fun _ => none) ops = some s ∧
      ∀ id c, s.2 id = some c → Behaves s.1 id c := by
  obtain ⟨fs', returned, refines⟩ := freshFs_refines now storage
  rw [fresh] at returned
  cases returned
  obtain ⟨s, finished, refines'⟩ := Runs.run_of_steps
    (I := fun s => Refines s.1 s.2)
    (fun refines allowed => observe_refines refines allowed.1 allowed.2) refines steps
  exact ⟨s, finished, fun id c expected => refines'.behaves expected⟩

/-- Write, overwrite, grow into a second block, cut, grow again and read. -/
def editRun : List FsOp :=
  [.create [slash, byte 97] 0o644 0, .write 1 [byte 1, byte 2, byte 3] 0, .write 1 [byte 4] 1,
    .write 1 [byte 5, byte 6, byte 7] 4095, .truncate 1 2, .write 1 [byte 8] 5000, .read 1 10 0,
    .truncate 1 0]

theorem fs_run_behaves_editRun : ∃ fs, freshFs 0 (fun _ => byte 0) = some fs ∧
    ∃ s, Runs.run FsOp.observe (fs, fun _ => none) editRun = some s ∧
      ∀ id c, s.2 id = some c → Behaves s.1 id c :=
  ⟨(freshFs 0 fun _ => byte 0).get (by decide +kernel), (Option.some_get _).symm,
    fs_run_behaves (Option.some_get _).symm (by decide +kernel)⟩

/-- One byte, and then five bytes from the start. -/
def overwriteRun : List FsOp :=
  [.create [slash, byte 97] 0o644 0, .write 1 [byte 1] 0,
    .write 1 [byte 1, byte 2, byte 3, byte 4, byte 5] 0]

/-- The second write needs no new block and leaves the length of the file at `1`. -/
theorem overwriteRun_not_byteString : ∃ fs, freshFs 0 (fun _ => byte 0) = some fs ∧
    Runs.Steps FsOp.observe (fun s op => op.Admissible s) (fs, fun _ => none) overwriteRun ∧
    ∃ s c, Runs.run FsOp.observe (fs, fun _ => none) overwriteRun = some s ∧ s.2 1 = some c ∧
      ¬ Behaves s.1 1 c := by
  refine ⟨(freshFs 0 fun _ => byte 0).get (by decide +kernel), (Option.some_get _).symm,
    by decide +kernel, ?_⟩
  have lengths : (Runs.run FsOp.observe ((freshFs 0 fun _ => byte 0).get (by decide +kernel),
      fun _ => none) overwriteRun).map (fun s => ((s.2 1).map FileContent.length,
        (mtlLoadFile s.1.db 1).map fun r => r.1.length)) = some (some 5, some 1) := by
    decide +kernel
  obtain ⟨s, finished, observed⟩ := Option.map_eq_some_iff.mp lengths
  obtain ⟨expectedLength, storedLength⟩ := Prod.mk.inj observed
  obtain ⟨c, expected, five⟩ := Option.map_eq_some_iff.mp expectedLength
  refine ⟨s, c, finished, expected, ?_⟩
  rintro ⟨⟨inode, l, loaded, same⟩, -⟩
  simp only [loaded, Option.map_some, Option.some.injEq] at storedLength
  omega

end MetalFs
