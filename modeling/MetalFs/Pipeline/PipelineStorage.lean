import MetalFs.Pipeline.FileDataSink
import MetalFs.Pipeline.FileDataSource

/-!
# The storage behind the FPGA

`PipelineStorage` is the storage backend whose files lie in the DRAM of the card: `write` streams a
buffer of host memory through a pipeline without operators into the file, and `read` streams a range
of the file back into a buffer.  `mtl_write` and `mtl_read` of `metal.c` go through it.

`CardOp.step_cardFiles`: on this backend an operation that is `Ok` returns and does to the contents
of the files what the byte strings of `FileContent` say.
-/

namespace MetalFs.Pipeline

open Fpga Segments

/-! ## The backend -/

/-- `PipelineStorage::read`, of a file system with the address type `CardDRAM` and the map
`DRAM`. -/
def PipelineStorage.Reads (mover : Datamover) (db : Db) (card : Card)
    (inodeId offset buffer length : Nat) (card' : Card) : Prop :=
  ∃ source extmaps,
    FileDataSourceContext.create db .cardDRAM .dram inodeId offset length = some source ∧
    source.extents ≠ [] ∧
    Mapped .cardDRAMRead (blockSegments source.extents) card.extmaps extmaps ∧
    if 0 < source.dataSource.toAddress.size then
      ∃ outputSize, Executed mover id source.dataSource.toAddress
        (DataSink.mk buffer length .host .none).toAddress ⟨card.bus, extmaps⟩ card' outputSize
    else card' = ⟨card.bus, extmaps⟩

/-- The only round of `PipelineStorage::write`: its source is the buffer. -/
def bufferRound (buffer length : Nat) : RoundInput where
  source := (DataSource.mk buffer length .host .none).toAddress
  endOfInput := true
  operators := id

/-- `PipelineStorage::write`. -/
def PipelineStorage.Writes (mover : Datamover) (db : Db) (card : Card)
    (inodeId offset buffer length : Nat) (db' : Db) (card' : Card) : Prop :=
  ∃ sink db₁ sink', FileDataSinkContext.create db inodeId offset length false = some (sink, db₁) ∧
    SinkState.Round mover (bufferRound buffer length) ⟨db₁, card, sink⟩ ⟨db', card', sink'⟩

/-! ## The file system on it -/

/-- The databases and the card. -/
structure CardFs where
  db : Db
  card : Card

/-- An operation on an inode; `buffer` is an address in host memory. -/
inductive CardOp where
  | write (inodeId buffer size offset : Nat)
  | truncate (inodeId offset : Nat)
  | read (inodeId buffer size offset : Nat)

/-- The state after an operation that returns. -/
def CardOp.Step (mover : Datamover) (fs fs' : CardFs) : CardOp → Prop
  | write inodeId buffer size offset =>
      -- Nothing is loaded for an inode that does not exist, and its code is ignored.
      ∃ db, mtlExpandInode pipelineMetadata fs.db inodeId
          (((mtlLoadFile fs.db inodeId).map Prod.snd).getD []) (u64 (offset + size)) = some db ∧
        PipelineStorage.Writes mover db fs.card inodeId offset buffer size fs'.db fs'.card
  | truncate inodeId offset => fs'.card = fs.card ∧
      mtlTruncate pipelineMetadata fs.db inodeId offset = some fs'.db
  | read inodeId buffer size offset => fs'.db = fs.db ∧
      ∃ inode extents, mtlLoadFile fs.db inodeId = some (inode, extents) ∧
        if 0 < readLen inode.length size offset then
          PipelineStorage.Reads mover fs.db fs.card inodeId offset buffer
            (readLen inode.length size offset) fs'.card
        else fs'.card = fs.card

/-- The contents of the files after an operation. -/
def CardOp.expect (fs : CardFs) (files : Files) : CardOp → Files
  | write id buffer size offset => Function.update files id ((files id).map fun c =>
      (c.grow (offset + size)).write (fetch fs.card.bus buffer size) offset)
  | truncate id offset => Function.update files id ((files id).map fun c => c.truncate offset)
  | read _ _ _ _ => files

/-- What an operation left in the memory of the host: a read has filled its buffer. -/
def CardOp.Returned (fs fs' : CardFs) (files : Files) : CardOp → Prop
  | read id buffer size offset => ∀ c, files id = some c →
      c.Reads size offset (fetch fs'.card.bus buffer (min size (c.length - offset))) ∧
      ∀ x, x < buffer ∨ buffer + min size (c.length - offset) ≤ x →
        fs'.card.bus x = fs.card.bus x
  | write _ _ _ _ => ∀ x, x < dramBaseOffset → fs'.card.bus x = fs.card.bus x
  | truncate _ _ => fs'.card = fs.card

/-! ## The conditions on an operation -/

/-- A buffer of host memory, of a length that a transfer can have. -/
def HostBuffer (buffer size : Nat) : Prop := size < 2 ^ 32 ∧ buffer + size ≤ dramBaseOffset

/-- The blocks of a range of the file are walked as the file has them. -/
def RangeStays (db : Db) (id offset size : Nat) : Prop :=
  ∀ r ∈ mtlLoadFile db id, 0 < size →
    StaysInExtent (blockSegments r.2) (offset / storageBlockSize)
      (Address.mk offset size .cardDRAM .dram).blockSpan

instance (db : Db) (id offset size : Nat) : Decidable (RangeStays db id offset size) :=
  inferInstanceAs (Decidable (∀ r ∈ mtlLoadFile db id, 0 < size → StaysInExtent _ _ _))

/-- The operation is on a file that was created, and

* a write or a truncation that makes the file longer meets `GrowsOk`, so that it does not end inside
  the blocks that the file already has; a truncation that makes it shorter meets `ShrinksOk`;
* a transfer is not on inode 0, which the contexts take for no file, has a buffer of less than
  `2 ^ 32` bytes in host memory and, if it is a write, an end inside the device, and the blocks of
  the range are walked as the file has them (`RangeStays`). -/
def CardOp.Ok (fs : CardFs) (files : Files) : CardOp → Prop
  | write id buffer size offset => id ≠ 0 ∧ (files id).isSome ∧ HostBuffer buffer size ∧
      offset + size ≤ pipelineNumBlocks * storageBlockSize ∧ GrowsOk fs.db id (offset + size) ∧
      ∀ r ∈ mtlLoadFile fs.db id,
        ∀ db ∈ mtlExpandInode pipelineMetadata fs.db id r.2 (offset + size),
          RangeStays db id offset size
  | truncate id offset => (files id).isSome ∧ offset < 2 ^ 64 ∧ GrowsOk fs.db id offset ∧
      ShrinksOk fs.db id offset
  | read id buffer size offset => id ≠ 0 ∧ (files id).isSome ∧ HostBuffer buffer size ∧
      offset + size < 2 ^ 63 ∧
      ∀ c ∈ files id, RangeStays fs.db id offset (min size (c.length - offset))

section Backend

variable {mover : Datamover} {db : Db} {card : Card} {files : Files} {inodeId : Nat}
  {c : FileContent} {offset buffer length : Nat}

/-- The files are the same when only host memory changes. -/
theorem CardFiles.of_dram (onCard : CardFiles db card.bus files) {bus : Bus}
    (same : dramOf bus = dramOf card.bus) : CardFiles db bus files := by
  refine ⟨onCard.inv, ?_⟩
  intro id c expected
  obtain ⟨inode, l, file, length, short, content⟩ := onCard.file expected
  refine ⟨inode, l, file, length, short, ?_⟩
  intro p b written
  obtain ⟨x, located, here⟩ := content p b written
  exact ⟨x, located, (congrFun same x).trans here⟩

theorem CardFiles.length_lt (onCard : CardFiles db card.bus files)
    (expected : files inodeId = some c) : c.length < 2 ^ 63 := by
  obtain ⟨inode, l, file, length, -⟩ := onCard.file expected
  have covered := onCard.inv.covered file
  have fits := onCard.inv.blockCount_le file
  have size : pipelineMetadata.blockSize = 262144 := rfl
  rw [size] at covered
  simp only [pipelineMetadata, pipelineNumBlocks] at fits
  omega

/-- The bytes of a range of the file are what was written there. -/
theorem OnCard.reads {bus : Bus} {l : List FileExtent} (content : OnCard bus l c)
    (inside : offset + length ≤ c.length) {packet : List Byte}
    (read : packet = ((fileBytes bus (blockSegments l)).drop offset).take length)
    (count : packet.length = length) : c.Reads length offset packet := by
  refine ⟨by omega, ?_⟩
  intro i b below written
  obtain ⟨x, located, here⟩ := content _ _ written
  have byte : (fileBytes bus (blockSegments l))[offset + i]? = some (dramOf bus x) :=
    getElem?_gather located
  rw [read, List.getElem?_take_of_lt (by omega), List.getElem?_drop, byte, here]

/-- The source of a range that the file has is the range. -/
theorem create_range {inode : Inode} {l : List FileExtent} (file : db.FileAt inodeId inode l)
    (short : l.length ≤ maxExtentsPerFile) (bound : inode.length < 2 ^ 63)
    (inside : offset + length ≤ inode.length) :
    FileDataSourceContext.create db .cardDRAM .dram inodeId offset length =
      some ⟨⟨offset, length, .cardDRAM, .dram⟩, inode.length, l⟩ := by
  have loads : mtlLoadExtentList db inodeId = .ok (l, inode.length) := by
    simp only [mtlLoadExtentList, file.1]
    exact if_neg (Nat.not_lt.mpr short)
  have clipped : u64 (min (u64 (offset + length)) inode.length + 2 ^ 64 - offset) = length := by
    rw [u64_of_lt (show offset + length < 2 ^ 64 by omega)]
    unfold u64
    omega
  simp only [FileDataSourceContext.create, loads, DataSource.withSize, clipped]

theorem toAddress_source (address : Nat) (type : AddressType) (map : MapType)
    (small : length < 2 ^ 32) :
    (DataSource.mk address length type map).toAddress = ⟨address, length, type, map⟩ := by
  rw [DataSource.toAddress, Nat.mod_eq_of_lt small]

theorem toAddress_sink (address : Nat) (type : AddressType) (map : MapType)
    (small : length < 2 ^ 32) :
    (DataSink.mk address length type map).toAddress = ⟨address, length, type, map⟩ := by
  rw [DataSink.toAddress, Nat.mod_eq_of_lt small]

/-- `PipelineStorage::read` of bytes that the file has fills the buffer with them. -/
theorem PipelineStorage.reads_file (documented : mover.Documented)
    (onCard : CardFiles db card.bus files) (expected : files inodeId = some c)
    (nonempty : 0 < length) (host : HostBuffer buffer length) (inside : offset + length ≤ c.length)
    (stays : RangeStays db inodeId offset length) :
    (∃ card', Reads mover db card inodeId offset buffer length card') ∧
    ∀ card', Reads mover db card inodeId offset buffer length card' →
      CardFiles db card'.bus files ∧ c.Reads length offset (fetch card'.bus buffer length) ∧
      ∀ x, x < buffer ∨ buffer + length ≤ x → card'.bus x = card.bus x := by
  obtain ⟨small, below⟩ := host
  obtain ⟨inode, l, file, lengthEq, short, content⟩ := onCard.file expected
  have bound := onCard.length_lt expected
  have created := create_range file short (by omega) (lengthEq.symm ▸ inside)
  have request : FileRequest ⟨offset, length, .cardDRAM, .dram⟩ (loaded (blockSegments l)).dram
      (blockSegments l) :=
    onCard.request expected file rfl rfl nonempty inside (stays _ file.1 nonempty)
  have hostRequest : HostRequest ⟨buffer, length, .host, .none⟩ := ⟨rfl, rfl, nonempty, below⟩
  have extents : l ≠ [] := by
    rintro rfl
    have none := request.inside_bytes
    simp only [fileSegments, blockSegments, List.map_nil, total_nil] at none
    omega
  obtain ⟨packet, packetEq⟩ : ∃ packet,
      packet = ((fileBytes card.bus (blockSegments l)).drop offset).take length := ⟨_, rfl⟩
  have count : packet.length = length := by
    have total := request.inside_bytes
    dsimp only at total
    rw [packetEq, List.length_take, List.length_drop, fileBytes, length_gather]
    omega
  have runs : ∀ extmaps, Mapped .cardDRAMRead (blockSegments l) card.extmaps extmaps → _ :=
    fun extmaps mapped =>
      have provides : Provides ⟨card.bus, extmaps⟩ _ _ := provides_file mapped request
      executed_host documented provides
        (show id _ ≠ [] by rw [id_eq, ← packetEq, ← List.length_pos_iff]; omega) hostRequest
  constructor
  · obtain ⟨extmaps, mapped⟩ := exists_mapped .cardDRAMRead (blockSegments l) card.extmaps
    obtain ⟨card', outputSize, executed⟩ := (runs extmaps mapped).1
    refine ⟨card', _, extmaps, created, extents, mapped, ?_⟩
    rw [toAddress_source offset _ _ small, if_pos nonempty, toAddress_sink buffer _ _ small]
    exact ⟨outputSize, executed⟩
  · rintro card' ⟨source, extmaps, created', -, mapped, executed⟩
    rw [created] at created'
    cases created'
    rw [toAddress_source offset _ _ small, if_pos nonempty, toAddress_sink buffer _ _ small]
      at executed
    obtain ⟨outputSize, executed⟩ := executed
    have result := ((runs extmaps mapped).2 card' outputSize executed).2
    dsimp only at result
    rw [id_eq, ← packetEq, List.take_of_length_le (by omega)] at result
    have filled : fetch card'.bus buffer length = packet := by
      rw [result, ← count]
      exact fetch_store ..
    refine ⟨onCard.of_dram ?_, ?_, ?_⟩
    · funext x
      rw [dramOf, dramOf, result, store_outside (by omega)]
    · rw [filled]
      exact content.reads inside packetEq count
    · intro x outside
      rw [result, store_outside (by omega)]

theorem CardFiles.length_le (onCard : CardFiles db card.bus files)
    (expected : files inodeId = some c) : c.length ≤ pipelineNumBlocks * storageBlockSize := by
  obtain ⟨inode, l, file, length, -⟩ := onCard.file expected
  have covered := onCard.inv.covered file
  have fits : blockCount l ≤ pipelineNumBlocks := onCard.inv.blockCount_le file
  rw [← length]
  exact Nat.le_trans covered (Nat.mul_le_mul_right storageBlockSize fits)

/-- A file that has the bytes does not grow. -/
theorem CardFiles.growsOk (onCard : CardFiles db card.bus files) (expected : files inodeId = some c)
    {bytes : Nat} (enough : bytes ≤ c.length) : GrowsOk db inodeId bytes := by
  obtain ⟨inode, l, file, length, -⟩ := onCard.file expected
  intro r loads shorter
  rw [file.1] at loads
  cases loads
  dsimp only at shorter
  omega

/-- The only round of a write into a file that is long enough. -/
theorem bufferRound_ok {sink : FileDataSinkContext} (holds : SinkState.Holds ⟨db, card, sink⟩ files c)
    (keeps : sink.truncateOnFinalize = false) (address : sink.dataSink.address = offset)
    (host : HostBuffer buffer length) (inside : offset + length ≤ c.length)
    (stays : RangeStays db sink.inodeId offset length) :
    RoundOk ⟨db, card, sink⟩ (bufferRound buffer length) (fetch card.bus buffer length) := by
  obtain ⟨small, below⟩ := host
  have size : (bufferRound buffer length).source.size = length := Nat.mod_eq_of_lt small
  have device := holds.card.length_le holds.expected
  constructor
  · rw [size]
    exact small
  · rw [size, address]
    exact Nat.le_trans inside device
  · rw [size, address]
    exact holds.card.growsOk holds.expected inside
  · rw [size, length_fetch]
  · rw [size]
    intro nonempty
    refine ⟨?_, ?_⟩
    · rw [← List.length_pos_iff, length_fetch]
      exact nonempty
    · intro extmaps _
      have request : HostRequest ⟨buffer, length, .host, .none⟩ := ⟨rfl, rfl, nonempty, below⟩
      refine ⟨_, ?_, rfl⟩
      rw [bufferRound, toAddress_source buffer _ _ small]
      exact provides_host ⟨card.bus, extmaps⟩ request
  · rw [size]
    intro r configured nonempty
    -- the file is long enough, so that the sink keeps its extents
    have cached : offset + length ≤ sink.cachedTotalSize := by
      rw [holds.cached]
      exact inside
    have bound := holds.card.length_lt holds.expected
    rw [configure_eq sink db small (by rw [address]; omega), address,
      FileDataSinkContext.prepareForTotalSize, if_pos cached] at configured
    cases configured
    obtain ⟨inode, file, -⟩ := holds.loaded
    have range := stays _ file.1 nonempty
    rw [address]
    simp only [DataSink.withSize, DataSink.toAddress, address, Nat.mod_eq_of_lt small]
    exact range
  · intro r _ _ cuts
    rw [keeps] at cuts
    cases cuts

/-- `PipelineStorage::write` into a file that is long enough writes the buffer to it. -/
theorem PipelineStorage.writes_file (documented : mover.Documented)
    (onCard : CardFiles db card.bus files) (expected : files inodeId = some c)
    (inode : inodeId ≠ 0) (host : HostBuffer buffer length) (inside : offset + length ≤ c.length)
    (stays : RangeStays db inodeId offset length) :
    (∃ db' card', Writes mover db card inodeId offset buffer length db' card') ∧
    ∀ db' card', Writes mover db card inodeId offset buffer length db' card' →
      CardFiles db' card'.bus (Function.update files inodeId
        (some (c.write (fetch card.bus buffer length) offset))) ∧
      ∀ x < dramBaseOffset, card'.bus x = card.bus x := by
  obtain ⟨inode', l, file, lengthEq, short, -⟩ := onCard.file expected
  have bound := onCard.length_lt expected
  have holds : SinkState.Holds ⟨db, card, ⟨⟨offset, length, .cardDRAM, .dram⟩, inodeId, false, l,
      inode'.length⟩⟩ files c := ⟨onCard, expected, inode, rfl, rfl, inode', file, rfl⟩
  have loads : FileDataSinkContext.loadExtents db
      ⟨⟨offset, length, .cardDRAM, .dram⟩, inodeId, false, [], 0⟩ =
      some ⟨⟨offset, length, .cardDRAM, .dram⟩, inodeId, false, l, inode'.length⟩ :=
    loadExtents_eq file short
  have created : FileDataSinkContext.create db inodeId offset length false =
      some (⟨⟨offset, length, .cardDRAM, .dram⟩, inodeId, false, l, inode'.length⟩, db) := by
    rw [FileDataSinkContext.create, loads, u64_of_lt (by omega)]
    exact if_pos (show offset + length ≤ inode'.length by omega)
  have ok := bufferRound_ok holds rfl rfl host inside stays
  have size : (bufferRound buffer length).source.size = length := Nat.mod_eq_of_lt host.1
  obtain ⟨⟨s', step⟩, writes⟩ := holds.round documented ok (Or.inr rfl)
  constructor
  · exact ⟨s'.db, s'.card, _, db, s'.sink, created, step⟩
  · rintro db' card' ⟨sink, db₁, sink', created', round⟩
    rw [created] at created'
    cases created'
    obtain ⟨-, -, -, kept, after⟩ := writes _ round
    have content := after.card
    rw [RoundInput.content, size, FileContent.grow,
      if_neg (Nat.not_lt.mpr inside)] at content
    exact ⟨content, kept⟩

end Backend

/-! ## One operation -/

section Operations

variable {mover : Datamover} {fs fs' : CardFs} {files : Files} {op : CardOp}

/-- An operation returns and does to the files what it should. -/
theorem CardOp.step_cardFiles (documented : mover.Documented)
    (onCard : CardFiles fs.db fs.card.bus files) (ok : op.Ok fs files) :
    (∃ fs', op.Step mover fs fs') ∧ ∀ fs', op.Step mover fs fs' →
      CardFiles fs'.db fs'.card.bus (op.expect fs files) ∧ op.Returned fs fs' files := by
  cases op with
  | write id buffer size offset =>
    obtain ⟨inode, known, host, device, grows, stays⟩ := ok
    obtain ⟨c, expected⟩ := Option.isSome_iff_exists.mp known
    obtain ⟨inode', l, file, -⟩ := onCard.file expected
    have small : offset + size < 2 ^ 64 := by
      unfold pipelineNumBlocks at device
      rw [storageBlockSize_eq] at device
      omega
    obtain ⟨db, expanded, grown⟩ := onCard.expand expected file small grows
    obtain ⟨⟨db', card', written⟩, writes⟩ := PipelineStorage.writes_file documented grown
      (Function.update_self ..) inode host (c.le_grow _) (stays _ file.1 db expanded)
    simp only [CardOp.Step, file.1, Option.map_some, Option.getD_some, u64_of_lt small, expanded]
    refine ⟨⟨⟨db', card'⟩, db, rfl, written⟩, ?_⟩
    rintro fs' ⟨_, ⟨⟩, written'⟩
    obtain ⟨content, kept⟩ := writes _ _ written'
    rw [Function.update_idem] at content
    simp only [CardOp.expect, CardOp.Returned, expected, Option.map_some]
    exact ⟨content, kept⟩
  | truncate id offset =>
    obtain ⟨known, small, grows, shrinks⟩ := ok
    obtain ⟨c, expected⟩ := Option.isSome_iff_exists.mp known
    obtain ⟨db', truncated, content⟩ : ∃ db',
        mtlTruncate pipelineMetadata fs.db id offset = some db' ∧
        CardFiles db' fs.card.bus (Function.update files id (some (c.truncate offset))) := by
      rcases Nat.lt_or_ge c.length offset with longer | shorter
      · exact onCard.grow expected longer small grows
      · exact onCard.shrink expected shorter shrinks
    refine ⟨⟨⟨db', fs.card⟩, rfl, truncated⟩, ?_⟩
    rintro ⟨db₁, card'⟩ ⟨rfl, truncated'⟩
    rw [truncated] at truncated'
    cases truncated'
    simp only [CardOp.expect, expected, Option.map_some]
    exact ⟨content, rfl⟩
  | read id buffer size offset =>
    obtain ⟨inode, known, host, small, stays⟩ := ok
    obtain ⟨c, expected⟩ := Option.isSome_iff_exists.mp known
    obtain ⟨inode', l, file, length, -⟩ := onCard.file expected
    have bound := onCard.length_lt expected
    have lenEq := readLen_eq size offset (show inode'.length < 2 ^ 63 by omega) small
    rw [length] at lenEq
    simp only [CardOp.Step, file.1, Option.some.injEq, Prod.mk.injEq]
    rcases Nat.eq_zero_or_pos (min size (c.length - offset)) with nothing | nonempty
    · -- the range is behind the end of the file
      refine ⟨⟨fs, rfl, inode', l, ⟨rfl, rfl⟩, ?_⟩, ?_⟩
      · rw [length, lenEq, if_neg (by omega)]
      · rintro fs' ⟨sameDb, _, _, ⟨rfl, rfl⟩, same⟩
        rw [length, lenEq, if_neg (by omega)] at same
        rw [sameDb, same]
        refine ⟨onCard, ?_⟩
        intro c' expected'
        rw [expected] at expected'
        cases expected'
        rw [same, nothing]
        exact ⟨⟨nothing.symm, fun i b below => absurd below (Nat.not_lt_zero i)⟩, fun _ _ => rfl⟩
    · have buffers : HostBuffer buffer (min size (c.length - offset)) := by
        obtain ⟨smaller, below⟩ := host
        exact ⟨by omega, by omega⟩
      obtain ⟨⟨card', read⟩, reads⟩ := PipelineStorage.reads_file documented onCard expected
        nonempty buffers (by omega) (stays c expected)
      refine ⟨⟨⟨fs.db, card'⟩, rfl, inode', l, ⟨rfl, rfl⟩, ?_⟩, ?_⟩
      · rw [length, lenEq, if_pos nonempty]
        exact read
      · rintro fs' ⟨sameDb, _, _, ⟨rfl, rfl⟩, ran⟩
        rw [length, lenEq, if_pos nonempty] at ran
        obtain ⟨content, filled, others⟩ := reads _ ran
        rw [sameDb]
        refine ⟨content, ?_⟩
        intro c' expected'
        rw [expected] at expected'
        cases expected'
        obtain ⟨count, bytes⟩ := filled
        exact ⟨⟨by rw [length_fetch], bytes⟩, others⟩

end Operations

end MetalFs.Pipeline
