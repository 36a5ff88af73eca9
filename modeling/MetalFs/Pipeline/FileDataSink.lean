import MetalFs.Pipeline.CardFiles

/-!
# Writing a file

A `FileDataSinkContext` takes what comes out of the operators, round by round, into a DRAM file.
`configure` grows the file so that it holds as many bytes as go into the operators, and `finalize`
moves on by the bytes that were written and cuts the file there at the end of the input.

`sink_rounds_overwrite`: the file ends up with the outputs of all rounds, one behind the other, from
the offset on, and nothing behind them.
-/

namespace MetalFs.Pipeline

open Fpga Segments

/-- `DataSink`. -/
structure DataSink where
  address : Nat
  size : Nat
  addressType : AddressType
  mapType : MapType
deriving DecidableEq, Repr

/-- `DataSink::withSize`. -/
def DataSink.withSize (sink : DataSink) (newSize : Nat) : DataSink := { sink with size := newSize }

/-- `DataSink::address`: the size is cast to 32 bits. -/
def DataSink.toAddress (sink : DataSink) : Address where
  addr := sink.address
  size := sink.size % 2 ^ 32
  type := sink.addressType
  map := sink.mapType

/-- `FileDataSinkContext`, for an inode other than zero. -/
structure FileDataSinkContext where
  dataSink : DataSink
  inodeId : Nat
  truncateOnFinalize : Bool
  extents : List FileExtent
  cachedTotalSize : Nat
deriving DecidableEq, Repr

namespace FileDataSinkContext

/-- `loadExtents`; `none` stands for the exception. -/
def loadExtents (db : Db) (context : FileDataSinkContext) : Option FileDataSinkContext :=
  match mtlLoadExtentList db context.inodeId with
  | .error _ => none
  | .ok (extents, fileLength) =>
    some { context with extents := extents, cachedTotalSize := fileLength }

/-- `prepareForTotalSize`. -/
def prepareForTotalSize (db : Db) (context : FileDataSinkContext) (size : Nat) :
    Option (FileDataSinkContext × Db) :=
  if size ≤ context.cachedTotalSize then some (context, db)
  else do
    let db ← mtlTruncate pipelineMetadata db context.inodeId size
    let context ← context.loadExtents db
    some (context, db)

/-- The constructor, for a file system with the address type `CardDRAM` and the map `DRAM`. -/
def create (db : Db) (inodeId offset size : Nat) (truncateOnFinalize : Bool) :
    Option (FileDataSinkContext × Db) := do
  let context : FileDataSinkContext :=
    { dataSink := ⟨offset, size, .cardDRAM, .dram⟩
      inodeId := inodeId
      truncateOnFinalize := truncateOnFinalize
      extents := []
      cachedTotalSize := 0 }
  let context ← context.loadExtents db
  context.prepareForTotalSize db (u64 (offset + size))

/-- `configure`, up to the transfer of the extent list. -/
def configure (db : Db) (context : FileDataSinkContext) (inputSize : Nat) :
    Option (FileDataSinkContext × Db) :=
  let context := { context with dataSink := context.dataSink.withSize inputSize }
  let address := context.dataSink.toAddress
  if context.cachedTotalSize < u64 (address.addr + address.size) then
    context.prepareForTotalSize db (u64 (address.addr + address.size))
  else some (context, db)

/-- `finalize`. -/
def finalize (db : Db) (context : FileDataSinkContext) (outputSize : Nat) (endOfInput : Bool) :
    Option (FileDataSinkContext × Db) := do
  let address := context.dataSink.toAddress
  let context := { context with
    dataSink := ⟨u64 (address.addr + outputSize), address.size, address.type, address.map⟩ }
  if endOfInput ∧ context.inodeId ≠ 0 ∧ context.truncateOnFinalize then do
    let db ← mtlTruncate pipelineMetadata db context.inodeId context.dataSink.toAddress.addr
    some (context, db)
  else some (context, db)

end FileDataSinkContext

/-! ## Rounds -/

/-- The databases, the card and the sink between two rounds. -/
structure SinkState where
  db : Db
  card : Card
  sink : FileDataSinkContext

/-- What a round gets: the source, whether it is the end of the input, and what the operators do to
the packet in this round. -/
structure RoundInput where
  source : Address
  endOfInput : Bool
  operators : List Byte → List Byte

/-- A round of `SnapPipelineRunner::run` with a file sink. -/
def SinkState.Round (mover : Datamover) (input : RoundInput) (s s' : SinkState) : Prop :=
  ∃ sink db extmaps outputSize,
    s.sink.configure s.db input.source.size = some (sink, db) ∧
    Mapped .cardDRAMWrite (blockSegments sink.extents) s.card.extmaps extmaps ∧
    (if 0 < input.source.size then
      Executed mover input.operators input.source sink.dataSink.toAddress ⟨s.card.bus, extmaps⟩
        s'.card outputSize
    else s'.card = ⟨s.card.bus, extmaps⟩ ∧ outputSize = 0) ∧
    sink.finalize db outputSize input.endOfInput = some (s'.sink, s'.db)

/-! ## The conditions of a round -/

/-- The round gets a packet of the size of its source, from which the operators make `output`, the
file can grow and be cut, and the blocks of the round are walked as the file has them.

Operators that are asked must put something out, and no more than went in: the sink takes as many
bytes as its size, and what is behind them would be left in the stream for the next round. -/
structure RoundOk (s : SinkState) (input : RoundInput) (output : List Byte) : Prop where
  small : input.source.size < 2 ^ 32
  device : s.sink.dataSink.address + input.source.size ≤ pipelineNumBlocks * storageBlockSize
  grows : GrowsOk s.db s.sink.inodeId (s.sink.dataSink.address + input.source.size)
  fits : output.length ≤ input.source.size
  provides : 0 < input.source.size → output ≠ [] ∧
    ∀ extmaps, (∀ slot, slot ≠ .cardDRAMWrite → extmaps slot = s.card.extmaps slot) →
      ∃ packet, Provides ⟨s.card.bus, extmaps⟩ input.source packet ∧
        input.operators packet = output
  stays : ∀ r ∈ s.sink.configure s.db input.source.size, 0 < input.source.size →
    StaysInExtent (blockSegments r.1.extents) (s.sink.dataSink.address / storageBlockSize)
      r.1.dataSink.toAddress.blockSpan
  shrinks : ∀ r ∈ s.sink.configure s.db input.source.size, input.endOfInput →
    s.sink.truncateOnFinalize → ShrinksOk r.2 s.sink.inodeId
      (s.sink.dataSink.address + output.length)

/-- The files are on the card, and the sink has the extents and the length of its file. -/
structure SinkState.Holds (s : SinkState) (files : Files) (c : FileContent) : Prop where
  card : CardFiles s.db s.card.bus files
  expected : files s.sink.inodeId = some c
  inode : s.sink.inodeId ≠ 0
  type : s.sink.dataSink.addressType = .cardDRAM
  map : s.sink.dataSink.mapType = .dram
  loaded : ∃ inode, s.db.FileAt s.sink.inodeId inode s.sink.extents ∧
    s.sink.cachedTotalSize = inode.length

section Rounds

variable {s s' : SinkState} {files : Files} {c : FileContent} {mover : Datamover}
  {input : RoundInput} {output : List Byte}

theorem SinkState.Holds.cached (holds : s.Holds files c) : s.sink.cachedTotalSize = c.length := by
  obtain ⟨inode, loaded, cached⟩ := holds.loaded
  obtain ⟨inode', l, file, length, -⟩ := holds.card.file holds.expected
  have same := file.1.symm.trans loaded.1
  cases same
  rw [cached, length]

theorem loadExtents_eq {db : Db} {context : FileDataSinkContext} {inode : Inode}
    {l : List FileExtent} (file : db.FileAt context.inodeId inode l)
    (short : l.length ≤ maxExtentsPerFile) : context.loadExtents db =
      some { context with extents := l, cachedTotalSize := inode.length } := by
  have loads : mtlLoadExtentList db context.inodeId = .ok (l, inode.length) := by
    simp only [mtlLoadExtentList, file.1]
    exact if_neg (Nat.not_lt.mpr short)
  unfold FileDataSinkContext.loadExtents
  rw [loads]

/-- `prepareForTotalSize` grows the file and loads its extents. -/
theorem SinkState.Holds.prepare (holds : s.Holds files c) {size : Nat} (small : size < 2 ^ 64)
    (ok : GrowsOk s.db s.sink.inodeId size) :
    ∃ sink db, s.sink.prepareForTotalSize s.db size = some (sink, db) ∧
      sink.dataSink = s.sink.dataSink ∧ sink.inodeId = s.sink.inodeId ∧
      sink.truncateOnFinalize = s.sink.truncateOnFinalize ∧
      SinkState.Holds ⟨db, s.card, sink⟩
        (Function.update files s.sink.inodeId (some (c.grow size)))
        (c.grow size) := by
  have cached := holds.cached
  unfold FileDataSinkContext.prepareForTotalSize FileContent.grow
  rcases Nat.lt_or_ge c.length size with longer | enough
  · obtain ⟨db, grown, card⟩ := holds.card.grow holds.expected longer small ok
    obtain ⟨inode, l, file, -, short, -⟩ := card.file (Function.update_self ..)
    rw [if_neg (by omega), if_pos longer, grown, Option.bind_eq_bind, Option.bind_some,
      loadExtents_eq file short]
    exact ⟨_, _, rfl, rfl, rfl, rfl, card, Function.update_self .., holds.inode, holds.type,
      holds.map, inode, file, rfl⟩
  · rw [if_pos (by omega), if_neg (Nat.not_lt.mpr enough), Function.update_eq_self_iff.mpr
      holds.expected.symm]
    exact ⟨_, _, rfl, rfl, rfl, rfl, holds⟩

theorem configure_eq (context : FileDataSinkContext) (db : Db) {inputSize : Nat}
    (small : inputSize < 2 ^ 32) (device : context.dataSink.address + inputSize < 2 ^ 64) :
    context.configure db inputSize =
      { context with dataSink := context.dataSink.withSize inputSize }.prepareForTotalSize db
        (context.dataSink.address + inputSize) := by
  have size : inputSize % 2 ^ 32 = inputSize := Nat.mod_eq_of_lt small
  unfold FileDataSinkContext.configure
  simp only [DataSink.withSize, DataSink.toAddress, size, u64_of_lt device]
  split
  · rfl
  · rename_i enough
    unfold FileDataSinkContext.prepareForTotalSize
    rw [if_pos (Nat.not_lt.mp enough)]

theorem RoundOk.device_lt (ok : RoundOk s input output) :
    s.sink.dataSink.address + input.source.size < 2 ^ 64 := by
  have device := ok.device
  unfold pipelineNumBlocks at device
  rw [storageBlockSize_eq] at device
  omega

/-- `configure` makes the file long enough for the round. -/
theorem SinkState.Holds.configure (holds : s.Holds files c) (ok : RoundOk s input output) :
    ∃ sink db, s.sink.configure s.db input.source.size = some (sink, db) ∧
      sink.dataSink = s.sink.dataSink.withSize input.source.size ∧
      sink.inodeId = s.sink.inodeId ∧ sink.truncateOnFinalize = s.sink.truncateOnFinalize ∧
      SinkState.Holds ⟨db, s.card, sink⟩ (Function.update files s.sink.inodeId
          (some (c.grow (s.sink.dataSink.address + input.source.size))))
        (c.grow (s.sink.dataSink.address + input.source.size)) := by
  have device := ok.device_lt
  have sized : SinkState.Holds
      { s with sink := { s.sink with dataSink := s.sink.dataSink.withSize input.source.size } }
      files c :=
    ⟨holds.card, holds.expected, holds.inode, holds.type, holds.map, holds.loaded⟩
  obtain ⟨sink, db, prepared, dataSink, inodeId, truncates, grown⟩ := sized.prepare device ok.grows
  exact ⟨sink, db, (configure_eq s.sink s.db ok.small device).trans prepared, dataSink, inodeId,
    truncates, grown⟩

/-- A sink that points into its file is a request on it. -/
theorem SinkState.Holds.request (holds : s.Holds files c)
    (nonempty : 0 < s.sink.dataSink.toAddress.size)
    (inside : s.sink.dataSink.address + s.sink.dataSink.toAddress.size ≤ c.length)
    (stays : StaysInExtent (blockSegments s.sink.extents)
      (s.sink.dataSink.address / storageBlockSize) s.sink.dataSink.toAddress.blockSpan) :
    FileRequest s.sink.dataSink.toAddress (Fpga.loaded (blockSegments s.sink.extents)).dram
      (blockSegments s.sink.extents) := by
  obtain ⟨inode, file, -⟩ := holds.loaded
  exact holds.card.request holds.expected file holds.type holds.map nonempty inside stays

/-- The contents after the job of a round. -/
def RoundInput.content (input : RoundInput) (offset : Nat) (output : List Byte) (c : FileContent) :
    FileContent :=
  (c.grow (offset + input.source.size)).write output offset

/-- The job of a round writes the output to the file.  What is left is `finalize`. -/
theorem SinkState.Holds.job (documented : mover.Documented) (holds : s.Holds files c)
    (ok : RoundOk s input output) :
    ∃ sink db, s.sink.configure s.db input.source.size = some (sink, db) ∧
      sink.dataSink = s.sink.dataSink.withSize input.source.size ∧
      sink.inodeId = s.sink.inodeId ∧ sink.truncateOnFinalize = s.sink.truncateOnFinalize ∧
      ∀ extmaps, Mapped .cardDRAMWrite (blockSegments sink.extents) s.card.extmaps extmaps →
        (∃ card' outputSize, if 0 < input.source.size then
            Executed mover input.operators input.source sink.dataSink.toAddress
              ⟨s.card.bus, extmaps⟩ card' outputSize
          else card' = ⟨s.card.bus, extmaps⟩ ∧ outputSize = 0) ∧
        ∀ card' outputSize, (if 0 < input.source.size then
            Executed mover input.operators input.source sink.dataSink.toAddress
              ⟨s.card.bus, extmaps⟩ card' outputSize
          else card' = ⟨s.card.bus, extmaps⟩ ∧ outputSize = 0) →
          outputSize = output.length ∧
          (∀ x < dramBaseOffset, card'.bus x = s.card.bus x) ∧
          SinkState.Holds ⟨db, card', sink⟩ (Function.update files s.sink.inodeId
            (some (input.content s.sink.dataSink.address output c)))
            (input.content s.sink.dataSink.address output c) := by
  obtain ⟨sink, db, configured, dataSink, inodeId, truncates, grown⟩ := holds.configure ok
  refine ⟨sink, db, configured, dataSink, inodeId, truncates, ?_⟩
  have long := FileContent.le_grow c (s.sink.dataSink.address + input.source.size)
  have size : sink.dataSink.toAddress.size = input.source.size := by
    rw [dataSink]
    exact Nat.mod_eq_of_lt ok.small
  have address : sink.dataSink.toAddress.addr = s.sink.dataSink.address := by
    rw [dataSink]
    rfl
  have start : sink.dataSink.address = s.sink.dataSink.address := address
  intro extmaps mapped
  rcases Nat.eq_zero_or_pos input.source.size with zero | positive
  · -- nothing is run
    have idle : ¬ 0 < input.source.size := by omega
    simp only [if_neg idle]
    refine ⟨⟨_, 0, rfl, rfl⟩, ?_⟩
    rintro card' outputSize ⟨rfl, rfl⟩
    have nothing : output = [] := by
      have fits := ok.fits
      rw [zero, Nat.le_zero] at fits
      exact List.eq_nil_of_length_eq_zero fits
    have same : input.content s.sink.dataSink.address output c =
        c.grow (s.sink.dataSink.address + input.source.size) := by
      rw [RoundInput.content, nothing, FileContent.write_nil _ (by omega)]
    rw [same, nothing]
    exact ⟨rfl, fun _ _ => rfl, grown.card, grown.expected, grown.inode, grown.type, grown.map,
      grown.loaded⟩
  · simp only [if_pos positive]
    obtain ⟨data, provides⟩ := ok.provides positive
    obtain ⟨packet, provided, made⟩ := provides extmaps fun slot different =>
      mapped.others different
    subst made
    have request := grown.request (by rw [size]; exact positive) (by rw [size, start]; exact long)
      (by rw [start]; exact ok.stays _ configured positive)
    obtain ⟨returns, result⟩ :=
      executed_file documented provided data mapped request
    refine ⟨returns, ?_⟩
    intro card' outputSize executed
    obtain ⟨count, bytes, others⟩ := result card' outputSize executed
    rw [size, address] at bytes
    obtain ⟨inode, file, cached⟩ := grown.loaded
    have fits := ok.fits
    rw [List.take_of_length_le fits] at bytes
    have inside : s.sink.dataSink.address + (input.operators packet).length ≤
        (c.grow (s.sink.dataSink.address + input.source.size)).length := by omega
    have card := grown.card.written grown.expected file inside bytes others
    rw [inodeId, Function.update_idem] at card
    refine ⟨?_, ?_, card, by rw [inodeId, Function.update_self], grown.inode, grown.type,
      grown.map, inode, file, cached⟩
    · rw [count, size, Nat.min_eq_left fits]
    · intro x below
      exact others x fun _ _ y _ => by omega

theorem finalize_keeps (context : FileDataSinkContext) (db : Db) (outputSize : Nat)
    {endOfInput : Bool} (device : context.dataSink.address + outputSize < 2 ^ 64)
    (keeps : endOfInput = false ∨ context.truncateOnFinalize = false) :
    context.finalize db outputSize endOfInput = some ({ context with
      dataSink := ⟨context.dataSink.address + outputSize, context.dataSink.toAddress.size,
        context.dataSink.addressType, context.dataSink.mapType⟩ }, db) := by
  have address : u64 (context.dataSink.toAddress.addr + outputSize) =
      context.dataSink.address + outputSize := u64_of_lt device
  have stays : ¬ (endOfInput = true ∧ context.inodeId ≠ 0 ∧ context.truncateOnFinalize = true) := by
    rintro ⟨ends, -, cuts⟩
    rcases keeps with goesOn | whole
    · rw [goesOn] at ends
      cases ends
    · rw [whole] at cuts
      cases cuts
  unfold FileDataSinkContext.finalize
  dsimp only
  rw [address, if_neg stays]
  rfl

theorem finalize_ends (context : FileDataSinkContext) (db : Db) (outputSize : Nat)
    (device : context.dataSink.address + outputSize < 2 ^ 64) (inode : context.inodeId ≠ 0)
    (truncates : context.truncateOnFinalize = true) :
    (context.finalize db outputSize true).map Prod.snd =
      mtlTruncate pipelineMetadata db context.inodeId (context.dataSink.address + outputSize) := by
  unfold FileDataSinkContext.finalize
  simp only [inode, ne_eq, not_false_iff, truncates, and_self, if_true, DataSink.toAddress,
    u64_of_lt device, Option.bind_eq_bind, Option.map_bind, Function.comp_def, Option.map_some]
  exact Option.bind_fun_some _

/-- A round that does not cut the file returns, and the sink is behind the bytes it wrote. -/
theorem SinkState.Holds.round (documented : mover.Documented) (holds : s.Holds files c)
    (ok : RoundOk s input output)
    (keeps : input.endOfInput = false ∨ s.sink.truncateOnFinalize = false) :
    (∃ s', s.Round mover input s') ∧ ∀ s', s.Round mover input s' →
      s'.sink.inodeId = s.sink.inodeId ∧
      s'.sink.truncateOnFinalize = s.sink.truncateOnFinalize ∧
      s'.sink.dataSink.address = s.sink.dataSink.address + output.length ∧
      (∀ x < dramBaseOffset, s'.card.bus x = s.card.bus x) ∧
      s'.Holds (Function.update files s.sink.inodeId
          (some (input.content s.sink.dataSink.address output c)))
        (input.content s.sink.dataSink.address output c) := by
  obtain ⟨sink, db, configured, dataSink, inodeId, truncates, job⟩ := holds.job documented ok
  have start : sink.dataSink.address = s.sink.dataSink.address := by rw [dataSink]; rfl
  have device := ok.device_lt
  have fits := ok.fits
  have final := finalize_keeps sink db output.length
    (by rw [start]; omega) (by rw [truncates]; exact keeps)
  constructor
  · obtain ⟨extmaps, mapped⟩ := exists_mapped .cardDRAMWrite (blockSegments sink.extents)
      s.card.extmaps
    obtain ⟨⟨card', outputSize, ran⟩, written⟩ := job extmaps mapped
    obtain ⟨rfl, -⟩ := written card' outputSize ran
    exact ⟨⟨db, card', _⟩, sink, db, extmaps, _, configured, mapped, ran, final⟩
  · rintro ⟨db₁, card', sink₁⟩ ⟨sink', db', extmaps, outputSize, configured', mapped, ran, finalized⟩
    rw [configured] at configured'
    cases configured'
    obtain ⟨rfl, host, after⟩ := (job extmaps mapped).2 card' outputSize ran
    rw [final] at finalized
    cases finalized
    exact ⟨inodeId, truncates, by rw [start], host, after.card, after.expected, after.inode, after.type,
      after.map, after.loaded⟩

/-- The last round cuts the file behind the bytes it wrote. -/
theorem SinkState.Holds.last (documented : mover.Documented) (holds : s.Holds files c)
    (ok : RoundOk s input output) (ends : input.endOfInput = true)
    (cuts : s.sink.truncateOnFinalize = true) :
    (∃ s', s.Round mover input s') ∧ ∀ s', s.Round mover input s' →
      CardFiles s'.db s'.card.bus (Function.update files s.sink.inodeId
        (some ((input.content s.sink.dataSink.address output c).truncate
          (s.sink.dataSink.address + output.length)))) := by
  obtain ⟨sink, db, configured, dataSink, inodeId, truncates, job⟩ := holds.job documented ok
  have start : sink.dataSink.address = s.sink.dataSink.address := by rw [dataSink]; rfl
  have device := ok.device_lt
  have fits := ok.fits
  have final := finalize_ends sink db output.length
    (by rw [start]; omega) (by rw [inodeId]; exact holds.inode) (by rw [truncates]; exact cuts)
  rw [start, inodeId] at final
  have shorter : s.sink.dataSink.address + output.length ≤
      (input.content s.sink.dataSink.address output c).length := by
    rw [RoundInput.content, FileContent.write]
    exact Nat.le_max_right _ _
  have shrinks := ok.shrinks _ configured ends cuts
  -- what the job leaves is cut
  have cut : ∀ card', SinkState.Holds ⟨db, card', sink⟩ (Function.update files s.sink.inodeId
      (some (input.content s.sink.dataSink.address output c)))
      (input.content s.sink.dataSink.address output c) →
      ∃ db', mtlTruncate pipelineMetadata db s.sink.inodeId
          (s.sink.dataSink.address + output.length) = some db' ∧
        CardFiles db' card'.bus (Function.update files s.sink.inodeId
          (some ((input.content s.sink.dataSink.address output c).truncate
            (s.sink.dataSink.address + output.length)))) := by
    intro card' after
    obtain ⟨db', truncated, card⟩ :=
      after.card.shrink (Function.update_self ..) shorter shrinks
    rw [Function.update_idem] at card
    exact ⟨db', truncated, card⟩
  constructor
  · obtain ⟨extmaps, mapped⟩ := exists_mapped .cardDRAMWrite (blockSegments sink.extents)
      s.card.extmaps
    obtain ⟨⟨card', outputSize, ran⟩, written⟩ := job extmaps mapped
    obtain ⟨rfl, -, after⟩ := written card' outputSize ran
    obtain ⟨db', truncated, -⟩ := cut card' after
    rw [truncated] at final
    obtain ⟨⟨sink', db''⟩, finalized, rfl⟩ := Option.map_eq_some_iff.mp final
    exact ⟨⟨_, card', sink'⟩, sink, db, extmaps, _, configured, mapped, ran,
      by rw [ends]; exact finalized⟩
  · rintro s' ⟨sink', db', extmaps, outputSize, configured', mapped, ran, finalized⟩
    rw [configured] at configured'
    cases configured'
    obtain ⟨rfl, -, after⟩ := (job extmaps mapped).2 s'.card outputSize ran
    obtain ⟨db', truncated, card⟩ := cut s'.card after
    rw [ends] at finalized
    rw [finalized, truncated, Option.map_some, Option.some.injEq] at final
    dsimp only at final
    rw [final]
    exact card

end Rounds

/-! ## Whole runs -/

/-- The rounds of `PipelineLoop::run`, each with what the operators make in it. -/
inductive SinkState.Rounds (mover : Datamover) :
    SinkState → List (RoundInput × List Byte) → SinkState → Prop
  | done (s : SinkState) : Rounds mover s [] s
  | round {s s₁ s' : SinkState} {input : RoundInput} {output : List Byte}
      {later : List (RoundInput × List Byte)} :
      RoundOk s input output → s.Round mover input s₁ → Rounds mover s₁ later s' →
      Rounds mover s ((input, output) :: later) s'

/-- The bytes of all rounds. -/
def writtenBytes (rounds : List (RoundInput × List Byte)) : List Byte :=
  rounds.flatMap Prod.snd

section Runs

variable {s s' : SinkState} {files : Files} {c c₀ : FileContent} {mover : Datamover}
  {input : RoundInput} {output data : List Byte} {offset : Nat}
  {rounds : List (RoundInput × List Byte)}

/-- A round puts its output behind the data that was written before. -/
theorem content_overwritten
    (before : ∀ p < offset + data.length, c.bytes p = (c₀.overwritten offset data).bytes p) :
    ∀ p < offset + (data ++ output).length,
      (input.content (offset + data.length) output c).bytes p =
        (c₀.overwritten offset (data ++ output)).bytes p := by
  intro p below
  rw [List.length_append] at below
  simp only [RoundInput.content, FileContent.write, FileContent.overwritten] at before ⊢
  rcases Nat.lt_or_ge p (offset + data.length) with earlier | now
  · rw [if_neg (by omega), c.grow_bytes (by omega), before p earlier]
    split
    · rfl
    · rw [List.getElem?_append_left (by omega)]
  · rw [if_pos (by omega), if_neg (by omega), List.getElem?_append_right (by omega)]
    congr 1
    omega

/-- Rounds before the end of the input append their outputs. -/
theorem SinkState.Rounds.content (documented : mover.Documented) (run : s.Rounds mover rounds s')
    (goesOn : ∀ round ∈ rounds, round.1.endOfInput = false) (holds : s.Holds files c)
    (address : s.sink.dataSink.address = offset + data.length)
    (before : ∀ p < offset + data.length, c.bytes p = (c₀.overwritten offset data).bytes p) :
    s'.sink.inodeId = s.sink.inodeId ∧
    s'.sink.truncateOnFinalize = s.sink.truncateOnFinalize ∧
    s'.sink.dataSink.address = offset + (data ++ writtenBytes rounds).length ∧
    ∃ c', s'.Holds (Function.update files s.sink.inodeId (some c')) c' ∧
      ∀ p < offset + (data ++ writtenBytes rounds).length,
        c'.bytes p = (c₀.overwritten offset (data ++ writtenBytes rounds)).bytes p := by
  induction run generalizing files c data with
  | done s =>
    have nothing : data ++ writtenBytes [] = data := List.append_nil data
    rw [nothing, address]
    refine ⟨rfl, rfl, rfl, c, ?_, before⟩
    rw [Function.update_eq_self_iff.mpr holds.expected.symm]
    exact holds
  | @round s s₁ s' input output later ok step run ih =>
    obtain ⟨-, steps⟩ := holds.round documented ok (Or.inl (goesOn _ List.mem_cons_self))
    obtain ⟨inode, cuts, address₁, -, holds₁⟩ := steps s₁ step
    rw [address] at address₁ holds₁
    rw [Nat.add_assoc, ← List.length_append] at address₁
    have next := ih (fun round member => goesOn round (List.mem_cons_of_mem _ member)) holds₁
      address₁ (content_overwritten before)
    have whole : data ++ writtenBytes ((input, output) :: later) =
        data ++ output ++ writtenBytes later := by
      rw [writtenBytes, List.flatMap_cons, List.append_assoc]
      rfl
    obtain ⟨inode', cuts', address', c', holds', same⟩ := next
    rw [inode, Function.update_idem] at holds'
    rw [whole]
    exact ⟨inode'.trans inode, cuts'.trans cuts, address', c', holds', same⟩

/-- The constructor leaves a sink that holds its file, longer if it has to be. -/
theorem create_holds {db : Db} {card : Card} {id size : Nat} (truncates : Bool)
    (files_ : CardFiles db card.bus files) (expected : files id = some c) (inode : id ≠ 0)
    (device : offset + size < 2 ^ 64) (ok : GrowsOk db id (offset + size)) :
    ∃ sink db', FileDataSinkContext.create db id offset size truncates = some (sink, db') ∧
      sink.inodeId = id ∧ sink.truncateOnFinalize = truncates ∧ sink.dataSink.address = offset ∧
      SinkState.Holds ⟨db', card, sink⟩
        (Function.update files id (some (c.grow (offset + size))))
        (c.grow (offset + size)) := by
  obtain ⟨inode', l, file, length, short, -⟩ := files_.file expected
  have holds : SinkState.Holds ⟨db, card, ⟨⟨offset, size, .cardDRAM, .dram⟩, id, truncates, l,
      inode'.length⟩⟩ files c := ⟨files_, expected, inode, rfl, rfl, inode', file, rfl⟩
  obtain ⟨sink, db', prepared, dataSink, inodeId, cuts, grown⟩ := holds.prepare device ok
  have loads : FileDataSinkContext.loadExtents db
      ⟨⟨offset, size, .cardDRAM, .dram⟩, id, truncates, [], 0⟩ =
      some ⟨⟨offset, size, .cardDRAM, .dram⟩, id, truncates, l, inode'.length⟩ :=
    loadExtents_eq file short
  refine ⟨sink, db', ?_, inodeId, cuts, by rw [dataSink], grown⟩
  rw [FileDataSinkContext.create, loads, u64_of_lt device]
  exact prepared

/-- A sink that was created for a file, to be cut at the end, and goes through all rounds of a
pipeline up to the end of the input leaves the file with the outputs of the rounds, one behind the
other from its offset on, with nothing behind them, and all other files as they were.  The
constructor may grow the file (`GrowsOk`), and every round meets `RoundOk`. -/
theorem sink_rounds_overwrite {db : Db} {card : Card} {id size : Nat} {sink : FileDataSinkContext}
    {db' : Db} (documented : mover.Documented) (files_ : CardFiles db card.bus files)
    (expected : files id = some c) (inode : id ≠ 0) (device : offset + size < 2 ^ 64)
    (ok : GrowsOk db id (offset + size))
    (created : FileDataSinkContext.create db id offset size true = some (sink, db'))
    (run : SinkState.Rounds mover ⟨db', card, sink⟩ rounds s)
    (goesOn : ∀ round ∈ rounds, round.1.endOfInput = false) (last : RoundOk s input output)
    (ends : input.endOfInput = true) :
    (∃ s', s.Round mover input s') ∧ ∀ s', s.Round mover input s' →
      CardFiles s'.db s'.card.bus (Function.update files id
        (some (c.overwritten offset (writtenBytes (rounds ++ [(input, output)]))))) := by
  obtain ⟨sink', db'', created', rfl, cuts, address, holds⟩ :=
    create_holds true files_ expected inode device ok
  rw [created] at created'
  cases created'
  have start : ∀ p < offset + ([] : List Byte).length,
      (c.grow (offset + size)).bytes p = (c.overwritten offset []).bytes p := by
    intro p below
    rw [List.length_nil] at below
    exact (c.grow_bytes (by omega)).trans (if_pos (by omega)).symm
  have first : sink.dataSink.address = offset + ([] : List Byte).length := address
  obtain ⟨inodeId, cuts', address', c', holds', same⟩ :=
    run.content documented goesOn holds first start
  dsimp only at inodeId holds'
  rw [List.nil_append] at address' same
  rw [Function.update_idem] at holds'
  obtain ⟨returns, final⟩ := holds'.last documented last ends (cuts'.trans cuts)
  refine ⟨returns, ?_⟩
  intro s' step
  have card' := final s' step
  rw [inodeId, Function.update_idem] at card'
  have whole : writtenBytes (rounds ++ [(input, output)]) = writtenBytes rounds ++ output := by
    simp only [writtenBytes, List.flatMap_append, List.flatMap_cons, List.flatMap_nil,
      List.append_nil]
  have content : (input.content s.sink.dataSink.address output c').truncate
      (s.sink.dataSink.address + output.length) =
      c.overwritten offset (writtenBytes (rounds ++ [(input, output)])) := by
    have bytes := @content_overwritten _ _ input output _ _ same
    rw [whole, address']
    simp only [FileContent.truncate, FileContent.overwritten] at bytes ⊢
    congr 1
    · rw [List.length_append, Nat.add_assoc]
    · funext p
      split
      · rename_i below
        rw [bytes p (by rw [List.length_append]; omega)]
      · rename_i beyond
        rw [if_neg (by omega), List.getElem?_eq_none (by rw [List.length_append]; omega)]
  rw [content] at card'
  exact card'

end Runs

/-- A store with one empty file, the inode 1. -/
def oneFileDb : Db :=
  ((mtlInitialize emptyDb pipelineMetadata 0).bind fun db =>
    (mtlCreate db [slash, byte 97] 0 0).bind fun
      | .ok created => some created.2
      | .error _ => none).get (by decide +kernel)

/-- Memory in which every address holds its lowest byte. -/
def countingCard : Card := ⟨fun x => byte x, fun _ => mtlExtmapLoad (mapExtents [])⟩

/-- The sink for the file, and the databases afterwards. -/
def oneFileSink : FileDataSinkContext × Db :=
  (FileDataSinkContext.create oneFileDb 1 0 4096 true).get (by decide +kernel)

/-- The state before the round. -/
def oneFileState : SinkState := ⟨oneFileSink.2, countingCard, oneFileSink.1⟩

/-- Ten bytes of host memory, and no operators. -/
def tenBytes : RoundInput := ⟨⟨64, 10, .host, .none⟩, true, id⟩

theorem oneFile_card : CardFiles oneFileDb countingCard.bus
    (Function.update (fun _ => none) 1 (some .empty)) := by
  obtain ⟨db, initialized, fresh⟩ := cardFiles_fresh 0 countingCard.bus
  have created : mtlCreate db [slash, byte 97] 0 0 = some (.ok (1, oneFileDb)) := by
    obtain rfl : (mtlInitialize emptyDb pipelineMetadata 0).get (by decide +kernel) = db := by
      simp only [initialized, Option.get_some]
    rfl
  exact fresh.create created

theorem tenBytes_ok : RoundOk oneFileState tenBytes (fetch countingCard.bus 64 10) := by
  constructor
  · decide
  · decide +kernel
  · decide +kernel
  · decide
  · intro _
    refine ⟨by decide, ?_⟩
    intro extmaps _
    exact ⟨_, provides_host ⟨countingCard.bus, extmaps⟩ ⟨rfl, rfl, by decide, by decide⟩, rfl⟩
  · decide +kernel
  · decide +kernel

/-- The constructor grows the file to 4096 bytes, and the end of the input cuts it to ten. -/
theorem sink_rounds_overwrite_tenBytes : ∃ s', oneFileState.Round plainDatamover tenBytes s' ∧
    CardFiles s'.db s'.card.bus (Function.update (Function.update (fun _ => none) 1 (some .empty)) 1
      (some (FileContent.empty.overwritten 0
        (writtenBytes ([] ++ [(tenBytes, fetch countingCard.bus 64 10)]))))) := by
  have created : FileDataSinkContext.create oneFileDb 1 0 4096 true =
      some (oneFileSink.1, oneFileSink.2) := by
    rw [Prod.mk.eta, oneFileSink, Option.some_get]
  obtain ⟨⟨s', round⟩, written⟩ := sink_rounds_overwrite plainDatamover_documented oneFile_card
    (Function.update_self ..) (by decide) (by decide) (by decide +kernel) created (.done _)
    (fun round member => absurd member List.not_mem_nil) tenBytes_ok rfl
  exact ⟨s', round, written s' round⟩

end MetalFs.Pipeline
