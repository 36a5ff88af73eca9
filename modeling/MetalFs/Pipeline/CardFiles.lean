import MetalFs.Filesystem.ByteString
import MetalFs.Fpga.Jobs

/-!
# Files on the card

A `PipelineStorage` keeps its metadata in the databases of the file system and the bytes of its
files in the DRAM behind the FPGA.  `CardFiles` relates the two to the contents the files should
have.  Growing and shrinking a file and a job that writes to it change the contents as
`FileContent.truncate` and `FileContent.write` say.
-/

namespace MetalFs.FileContent

/-- The contents of a file that holds at least `bytes` bytes. -/
def grow (c : FileContent) (bytes : Nat) : FileContent :=
  if c.length < bytes then c.truncate bytes else c

/-- The contents of a file with `data` from `offset` on and nothing behind. -/
def overwritten (c : FileContent) (offset : Nat) (data : List Byte) : FileContent where
  length := offset + data.length
  bytes p := if p < offset then c.bytes p else data[p - offset]?

theorem le_grow (c : FileContent) (bytes : Nat) : bytes ≤ (c.grow bytes).length := by
  unfold grow
  split
  · exact Nat.le_refl _
  · omega

/-- Growing keeps the bytes up to the new end. -/
theorem grow_bytes (c : FileContent) {bytes p : Nat} (below : p < bytes) :
    (c.grow bytes).bytes p = c.bytes p := by
  unfold grow
  split
  · exact if_pos below
  · rfl

theorem write_nil (c : FileContent) {offset : Nat} (inside : offset ≤ c.length) :
    c.write [] offset = c := by
  cases c
  simp only [write, List.length_nil, Nat.add_zero, List.getElem?_nil] at inside ⊢
  congr 1
  · exact max_eq_left inside
  · funext p
    rw [if_neg (by omega)]

end MetalFs.FileContent

namespace MetalFs.Pipeline

open Fpga Segments

/-- `mtl_storage_get_metadata` of `PipelineStorage`. -/
def pipelineMetadata : StorageMetadata := ⟨pipelineNumBlocks, storageBlockSize⟩

/-- The bytes of a file in the DRAM. -/
def dramSegments (l : List FileExtent) : List Segment := fileSegments (blockSegments l)

/-- Every byte that was written is where the extents of the file have it. -/
def OnCard (bus : Bus) (l : List FileExtent) (c : FileContent) : Prop :=
  ∀ p b, c.bytes p = some b → ∃ x, locate (dramSegments l) p = some x ∧ dramOf bus x = b

/-- The file system has the files with the contents they should have. -/
structure CardFiles (db : Db) (bus : Bus) (files : Files) : Prop where
  inv : db.Inv pipelineMetadata
  file : ∀ {id c}, files id = some c → ∃ inode l, db.FileAt id inode l ∧
    inode.length = c.length ∧ l.length ≤ maxExtentsPerFile ∧ OnCard bus l c

/-! ## Growing -/

/-- The number of blocks a file lacks to hold `bytes` bytes. -/
def lackingBlocks (l : List FileExtent) (bytes : Nat) : Nat :=
  blocksFor storageBlockSize bytes - blockCount l

/-- Growing the file to `bytes` bytes, if it is shorter,

* does not end inside the blocks that the file already has, where the length would stay as it is (so
  a file of ten bytes is not grown to twenty);
* finds the missing blocks, and no reservation uses up a free extent in place;
* leaves the file with no more extents than its list takes. -/
def GrowsOk (db : Db) (id bytes : Nat) : Prop :=
  ∀ r ∈ mtlLoadFile db id, r.1.length < bytes →
    blockCount r.2 * storageBlockSize < bytes ∧
    lackingBlocks r.2 bytes ≤ db.allocator.freeBlocks ∧
    GrowOk (lackingBlocks r.2 bytes) db.allocator (r.2.getLastD ⟨0, 0⟩) (lackingBlocks r.2 bytes) ∧
    ∀ db' ∈ mtlTruncate pipelineMetadata db id bytes,
      ∀ r' ∈ mtlLoadFile db' id, r'.2.length ≤ maxExtentsPerFile

/-- Shrinking the file to `bytes` bytes, if it is longer, frees and cuts extents only where the
allocator keeps its invariant (`AllocOp.Ok`). -/
def ShrinksOk (db : Db) (id bytes : Nat) : Prop :=
  ∀ r ∈ mtlLoadFile db id, bytes < r.1.length →
    CallsOk db.allocator (shrinkCalls storageBlockSize bytes r.2 0)

instance (db : Db) (id bytes : Nat) : Decidable (GrowsOk db id bytes) :=
  inferInstanceAs (Decidable (∀ r ∈ mtlLoadFile db id, r.1.length < bytes →
    _ ∧ _ ∧ _ ∧ ∀ db' ∈ mtlTruncate pipelineMetadata db id bytes, ∀ r' ∈ mtlLoadFile db' id, _))

instance (db : Db) (id bytes : Nat) : Decidable (ShrinksOk db id bytes) :=
  inferInstanceAs (Decidable (∀ r ∈ mtlLoadFile db id, bytes < r.1.length → CallsOk _ _))

section Files

variable {db : Db} {bus : Bus} {files : Files} {id : Nat} {c : FileContent}

theorem pipelineBlockSize_pos : 0 < pipelineMetadata.blockSize := by decide

theorem pipelineDevice_lt :
    pipelineMetadata.numBlocks * pipelineMetadata.blockSize < 2 ^ 64 := by decide

theorem total_dramSegments (l : List FileExtent) :
    total (dramSegments l) = blockCount l * storageBlockSize := by
  rw [dramSegments, fileSegments, total_scale, total_blockSegments]

/-- A position is at the same place in a layout that goes on. -/
theorem locate_dramSegments {l l' : List FileExtent}
    (initial : IsPrefix (blockSegments l) (blockSegments l')) {p : Nat}
    (below : p < total (dramSegments l)) : locate (dramSegments l') p = locate (dramSegments l) p :=
  (@initial.scale _ _ storageBlockSize (by decide) p below).symm

/-- An operation on the file `id` that leaves the DRAM bytes of the others alone. -/
theorem CardFiles.update (card : CardFiles db bus files) {db' : Db} {bus' : Bus}
    (inv : db'.Inv pipelineMetadata) (frame : Db.Frame id db db') {inode : Inode}
    {l : List FileExtent} (file : db'.FileAt id inode l) (short : l.length ≤ maxExtentsPerFile)
    (outside : ∀ x, (∀ s ∈ dramSegments l, ¬ s.Contains x) → dramOf bus' x = dramOf bus x)
    (length : inode.length = c.length) (content : OnCard bus' l c) :
    CardFiles db' bus' (Function.update files id (some c)) := by
  refine ⟨inv, ?_⟩
  intro other c' expected
  by_cases this : other = id
  · subst this
    rw [Function.update_self] at expected
    cases expected
    exact ⟨inode, l, file, length, short, content⟩
  · rw [Function.update_of_ne this] at expected
    obtain ⟨inode', l', file', length', short', content'⟩ := card.file expected
    have kept : db'.FileAt other inode' l' := (frame.fileAt this).mpr file'
    refine ⟨inode', l', kept, length', short', ?_⟩
    intro p b written
    obtain ⟨x, located, here⟩ := content' p b written
    refine ⟨x, located, ?_⟩
    rw [outside x, here]
    -- the byte lies in an extent of the other file
    intro s inThis contains
    obtain ⟨t, inOther, contains'⟩ := locate_mem located
    simp only [dramSegments, fileSegments, blockSegments, List.map_map, List.mem_map] at inThis inOther
    obtain ⟨e, member, rfl⟩ := inThis
    obtain ⟨e', member', rfl⟩ := inOther
    exact ((inv.disjoint_of_ne kept file this member' member).scale storageBlockSize) x contains'
      contains

/-- `mtl_truncate` of a file that does not get shorter is the loop of `mtl_expand_inode`. -/
theorem mtlTruncate_expands (inv : db.Inv pipelineMetadata) {inode : Inode} {l : List FileExtent}
    (file : db.FileAt id inode l) {bytes : Nat} (longer : inode.length ≤ bytes) :
    mtlTruncate pipelineMetadata db id bytes =
      expandLoop pipelineMetadata id bytes (lackingBlocks l bytes) db (blockCount l)
        (l.getLastD ⟨0, 0⟩) := by
  have fits := inv.blockCount_le file
  have count : u64 (blockCount l) = blockCount l := by
    refine u64_of_lt ?_
    simp only [pipelineMetadata, pipelineNumBlocks] at fits
    omega
  simp only [mtlTruncate, file.1, Option.bind_eq_bind, Option.bind_some, if_pos longer,
    mtlExpandInode, show (l.map FileExtent.length).sum = blockCount l from rfl, count]
  rfl

/-- `mtl_expand_inode` of a file that has the bytes already. -/
theorem mtlExpandInode_enough (inv : db.Inv pipelineMetadata) {inode : Inode} {l : List FileExtent}
    (file : db.FileAt id inode l) {bytes : Nat} (enough : bytes ≤ inode.length) :
    mtlExpandInode pipelineMetadata db id l bytes = some db := by
  have covered := inv.covered file
  have fits := inv.blockCount_le file
  have count : u64 (blockCount l) = blockCount l := by
    refine u64_of_lt ?_
    simp only [pipelineMetadata, pipelineNumBlocks] at fits
    omega
  have blocks : blocksFor pipelineMetadata.blockSize bytes ≤ blockCount l := by
    rw [blocksFor_le_iff pipelineBlockSize_pos]
    omega
  simp only [mtlExpandInode, show (l.map FileExtent.length).sum = blockCount l from rfl, count]
  rw [Nat.sub_eq_zero_of_le blocks, expandLoop]
  exact if_neg (Nat.not_lt.mpr blocks)

/-- `mtl_truncate` of a file that gets longer. -/
theorem CardFiles.grow (card : CardFiles db bus files) (expected : files id = some c) {bytes : Nat}
    (longer : c.length < bytes) (small : bytes < 2 ^ 64) (ok : GrowsOk db id bytes) :
    ∃ db', mtlTruncate pipelineMetadata db id bytes = some db' ∧
      CardFiles db' bus (Function.update files id (some (c.truncate bytes))) := by
  obtain ⟨inode, l, file, length, -, content⟩ := card.file expected
  obtain ⟨beyond, room, growOk, short⟩ := ok _ file.1 (by rw [length]; exact longer)
  dsimp only at beyond room growOk short
  have device := pipelineDevice_lt
  have blocks : blocksFor storageBlockSize bytes ≤ 2 ^ 46 := by
    rw [blocksFor_le_iff (by decide), storageBlockSize_eq]
    omega
  have expands := mtlTruncate_expands card.inv file (show inode.length ≤ bytes by omega)
  rcases expandLoop_cases card.inv file pipelineBlockSize_pos device (by
      simp only [pipelineMetadata, pipelineNumBlocks]
      omega) (le_refl _) growOk with
    ⟨-, lacking⟩ | ⟨db', inode', l', returned, expanded, -⟩
  · unfold lackingBlocks at room
    exact absurd room (Nat.not_le.mpr lacking)
  · have result : mtlTruncate pipelineMetadata db id bytes = some db' := expands.trans returned
    refine ⟨db', result, card.update expanded.inv expanded.frame expanded.file
      (short db' result _ expanded.file.1) (fun _ _ => rfl) ?_ ?_⟩
    · have missing : blockCount l < blocksFor storageBlockSize bytes := by
        rw [← Nat.not_le, blocksFor_le_iff (by decide)]
        omega
      exact expanded.length.trans (if_pos missing)
    · intro p b written
      simp only [FileContent.truncate] at written
      split at written
      · obtain ⟨x, located, here⟩ := content p b written
        exact ⟨x, (locate_dramSegments expanded.isPrefix (lt_total located)).trans located, here⟩
      · cases written

/-- `mtl_expand_inode`: the file holds the bytes afterwards. -/
theorem CardFiles.expand (card : CardFiles db bus files) (expected : files id = some c)
    {inode : Inode} {l : List FileExtent} (file : db.FileAt id inode l) {bytes : Nat}
    (small : bytes < 2 ^ 64) (ok : GrowsOk db id bytes) :
    ∃ db', mtlExpandInode pipelineMetadata db id l bytes = some db' ∧
      CardFiles db' bus (Function.update files id (some (c.grow bytes))) := by
  obtain ⟨inode', l', file', length, -⟩ := card.file expected
  obtain ⟨rfl, rfl⟩ : inode' = inode ∧ l' = l := by
    have same := file'.1.symm.trans file.1
    cases same
    exact ⟨rfl, rfl⟩
  unfold FileContent.grow
  rcases Nat.lt_or_ge c.length bytes with longer | enough
  · obtain ⟨db', grown, card'⟩ := card.grow expected longer small ok
    simp only [mtlTruncate, file.1, Option.bind_eq_bind, Option.bind_some,
      if_pos (show inode'.length ≤ bytes by omega)] at grown
    rw [if_pos longer]
    exact ⟨db', grown, card'⟩
  · rw [if_neg (Nat.not_lt.mpr enough), Function.update_eq_self_iff.mpr expected.symm]
    exact ⟨db, mtlExpandInode_enough card.inv file (by omega), card⟩

/-- `mtl_truncate` of a file that gets shorter or keeps its length. -/
theorem CardFiles.shrink (card : CardFiles db bus files) (expected : files id = some c) {bytes : Nat}
    (shorter : bytes ≤ c.length) (ok : ShrinksOk db id bytes) :
    ∃ db', mtlTruncate pipelineMetadata db id bytes = some db' ∧
      CardFiles db' bus (Function.update files id (some (c.truncate bytes))) := by
  obtain ⟨inode, l, file, length, short, content⟩ := card.file expected
  rcases Nat.lt_or_ge bytes inode.length with less | same
  · obtain ⟨db', l', walked, shrunk⟩ := truncateLoop_spec card.inv file pipelineBlockSize_pos
      pipelineDevice_lt (by decide) less (ok _ file.1 less)
    refine ⟨db', ?_, card.update shrunk.inv shrunk.frame shrunk.file
      (le_trans shrunk.length_le short) (fun _ _ => rfl) rfl ?_⟩
    · simp only [mtlTruncate, file.1, Option.bind_eq_bind, Option.bind_some,
        if_neg (Nat.not_le.mpr less), walked]
    · intro p b written
      simp only [FileContent.truncate] at written
      split at written
      · rename_i below
        obtain ⟨x, located, here⟩ := content p b written
        have holds : bytes ≤ blockCount l' * storageBlockSize := by
          rw [← blocksFor_le_iff (by decide), shrunk.blocks]
          exact le_refl _
        refine ⟨x, ?_, here⟩
        rw [← locate_dramSegments shrunk.isPrefix (by rw [total_dramSegments]; omega), located]
      · cases written
  · -- the blocks of the file are enough, so that the loop does nothing
    have covered := card.inv.covered file
    have enough : ¬ blockCount l < blocksFor storageBlockSize bytes := by
      rw [Nat.not_lt, blocksFor_le_iff (by decide)]
      exact Nat.le_trans (by omega) covered
    have returned : mtlTruncate pipelineMetadata db id bytes = some db := by
      have nothing : lackingBlocks l bytes = 0 := by
        unfold lackingBlocks
        omega
      rw [mtlTruncate_expands card.inv file same, nothing, expandLoop]
      exact if_neg enough
    refine ⟨db, returned, card.update card.inv (.refl id db) file short (fun _ _ => rfl) ?_ ?_⟩
    · simp only [FileContent.truncate]
      omega
    · intro p b written
      simp only [FileContent.truncate] at written
      split at written
      · exact content p b written
      · cases written

/-! ## Requests -/

/-- A range inside a file is a request on it, if its blocks are walked as the file has them. -/
theorem CardFiles.request (card : CardFiles db bus files) (expected : files id = some c)
    {inode : Inode} {l : List FileExtent} (file : db.FileAt id inode l) {transfer : Address}
    (type : transfer.type = .cardDRAM) (map : transfer.map = .dram) (nonempty : 0 < transfer.size)
    (inside : transfer.addr + transfer.size ≤ c.length)
    (stays : StaysInExtent (blockSegments l) (transfer.addr / storageBlockSize)
      transfer.blockSpan) :
    FileRequest transfer (loaded (blockSegments l)).dram (blockSegments l) := by
  obtain ⟨inode', l', file', length, short, -⟩ := card.file expected
  obtain ⟨rfl, rfl⟩ : inode' = inode ∧ l' = l := by
    have same := file'.1.symm.trans file.1
    cases same
    exact ⟨rfl, rfl⟩
  have covered := card.inv.covered file
  have blocks : pipelineMetadata.blockSize = storageBlockSize := rfl
  rw [blocks] at covered
  constructor
  · exact type
  · exact map
  · exact holds_load _
  · rw [blockSegments, List.length_map]
    exact short
  · intro s member
    obtain ⟨e, inList, rfl⟩ := List.mem_map.mp member
    exact card.inv.le file inList
  · exact card.inv.disjoint file
  · exact nonempty
  · rw [total_blockSegments]
    exact Nat.le_trans inside (Nat.le_trans (by omega) covered)
  · exact stays

/-! ## Creating -/

/-- After `mtl_initialize` of an empty store there are no files. -/
theorem cardFiles_fresh (now : Int) (bus : Bus) :
    ∃ db, mtlInitialize emptyDb pipelineMetadata now = some db ∧ CardFiles db bus fun _ => none := by
  obtain ⟨db, returned, inv, -⟩ := mtlInitialize_spec pipelineMetadata (by decide) now
  exact ⟨db, returned, inv, fun expected => by cases expected⟩

/-- A file that was just created is empty. -/
theorem CardFiles.create (card : CardFiles db bus files) {filename : List Byte} {mode : Nat}
    {now : Int} {db' : Db} (returned : mtlCreate db filename mode now = some (.ok (id, db'))) :
    CardFiles db' bus (Function.update files id (some .empty)) := by
  have spec := mtlCreate_spec card.inv returned
  refine ⟨spec.inv, ?_⟩
  intro other c' expected
  by_cases this : other = id
  · subst this
    rw [Function.update_self] at expected
    cases expected
    obtain ⟨inode, file, length⟩ := spec.file
    exact ⟨inode, [], file, length, Nat.zero_le _, fun p b written => by cases written⟩
  · rw [Function.update_of_ne this] at expected
    obtain ⟨inode, l, file, rest⟩ := card.file expected
    exact ⟨inode, l, (spec.others this).mpr file, rest⟩

/-! ## Writing -/

/-- What a job that writes `data` to the file does to the contents. -/
theorem CardFiles.written (card : CardFiles db bus files) (expected : files id = some c)
    {inode : Inode} {l : List FileExtent} (file : db.FileAt id inode l) {bus' : Bus}
    {data : List Byte} {offset : Nat} (inside : offset + data.length ≤ c.length)
    (bytes : fileBytes bus' (blockSegments l) =
      splice (fileBytes bus (blockSegments l)) offset data)
    (others : ∀ y, (∀ s ∈ dramSegments l, ∀ x, s.Contains x → y ≠ dramBaseOffset + x) →
      bus' y = bus y) :
    CardFiles db bus' (Function.update files id (some (c.write data offset))) := by
  obtain ⟨inode', l', file', length, short, content⟩ := card.file expected
  obtain ⟨rfl, rfl⟩ : inode' = inode ∧ l' = l := by
    have same := file'.1.symm.trans file.1
    cases same
    exact ⟨rfl, rfl⟩
  have covered := card.inv.covered file
  have blocks : pipelineMetadata.blockSize = storageBlockSize := rfl
  rw [blocks, ← total_dramSegments] at covered
  refine card.update card.inv (.refl id db) file short ?_ ?_ ?_
  · intro x outside
    refine others _ ?_
    intro s member y contains same
    have here : x = y := Nat.add_left_cancel same
    rw [here] at outside
    exact outside s member contains
  · simp only [FileContent.write]
    omega
  · -- a byte of the file afterwards
    have read : ∀ p x, locate (dramSegments l') p = some x → some (dramOf bus' x) =
        (splice (fileBytes bus (blockSegments l')) offset data)[p]? := by
      intro p x located
      rw [← bytes]
      exact (getElem?_gather located).symm
    have fits : offset ≤ (fileBytes bus (blockSegments l')).length := by
      rw [fileBytes, length_gather]
      exact Nat.le_trans (by omega) covered
    intro p b written
    simp only [FileContent.write] at written
    split at written
    · rename_i within
      obtain ⟨x, located⟩ : ∃ x, locate (dramSegments l') p = some x := exists_locate (by omega)
      have here := read p x located
      rw [getElem?_splice fits, if_pos within, written] at here
      exact ⟨x, located, Option.some.inj here⟩
    · rename_i outside
      obtain ⟨x, located, same⟩ := content p b written
      have here := read p x located
      rw [getElem?_splice fits, if_neg outside] at here
      have before : (fileBytes bus (blockSegments l'))[p]? = some (dramOf bus x) :=
        getElem?_gather located
      rw [before] at here
      exact ⟨x, located, (Option.some.inj here).trans same⟩

end Files

end MetalFs.Pipeline
