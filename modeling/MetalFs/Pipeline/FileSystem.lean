import MetalFs.Filesystem.NamedFiles
import MetalFs.Pipeline.PipelineStorage

/-!
# The file system on the card

Everything together: the calls on paths change the tree of names, the operations on inodes change
the bytes in the DRAM of the card, and both work on the same databases.  A `FileTree` is what the
file system is for: a tree of names whose files are byte strings.

`fileSystem_run`: in every run of calls, in any order, that are `Ok` where they are made, every call
returns what it should, and afterwards the names lead where they should and every file has the bytes
it should.
-/

namespace MetalFs.Pipeline

open Fpga Segments

/-! ## Calls -/

/-- A tree of names whose files have contents. -/
structure FileTree where
  names : NameTree
  files : Files

/-- A call of the file system. -/
inductive FsCall where
  | path (u : Uninitialised) (op : PathOp)
  | file (op : CardOp)

/-- The state after a call that returns. -/
def FsCall.Step (mover : Datamover) (fs fs' : CardFs) : FsCall → Prop
  | path u op => fs'.card = fs.card ∧ PathOp.step ⟨fs.db, false⟩ (u, op) = some ⟨fs'.db, false⟩
  | file op => op.Step mover fs fs'

/-- What a call does to the tree. -/
noncomputable def FsCall.expect (fs : CardFs) (t : FileTree) : FsCall → FileTree
  | path _ op => ⟨t.names.after op, t.names.filesAfter t.files op⟩
  | file op => ⟨t.names, op.expect fs t.files⟩

/-- What a call returns: a code, or bytes in host memory. -/
def FsCall.Returned (fs fs' : CardFs) (t : FileTree) : FsCall → Prop
  | path u op => fs'.card = fs.card ∧
      ∃ ended, op.call.txn u fs.db = some ended ∧ ended.code = t.names.code op
  | file op => op.Returned fs fs' t.files

/-- What is known of a call when it is made.  A call on paths is one that the kernel makes
(`PathOp.Admitted`), and its frees keep the allocator's invariant.  A call on an inode meets
`CardOp.Ok`: it does not grow the file to an end inside the blocks that it already has, finds the
blocks without breaking the allocator, and its blocks are walked as the file has them. -/
def FsCall.Ok (fs : CardFs) (t : FileTree) : FsCall → Prop
  | path _ op => op.Admitted fs.db ∧ op.FreesOk fs.db
  | file op => op.Ok fs t.files

/-- The databases and the card have the tree. -/
structure Shows (fs : CardFs) (t : FileTree) : Prop where
  opens : ∀ p, (∀ c ∈ p, IsName c) →
    mtlOpen fs.db (pathOf p) = some ((t.names.find p).map Node.inodeId)
  gets : ∀ p, (∀ c ∈ p, IsName c) → ∃ result, mtlGetInode fs.db (pathOf p) = some result ∧
    result.map Inode.type = (t.names.find p).map Node.type
  kinds : ∀ p node, (∀ c ∈ p, IsName c) → t.names.find p = .ok node →
    ((t.files node.inodeId).isSome ↔ node.type = .file)
  contents : CardFiles fs.db fs.card.bus t.files

/-! ## What an operation on an inode leaves alone -/

section Touched

variable {mover : Datamover} {db db' : Db} {card card' : Card} {id offset size buffer : Nat}
  {context context' : FileDataSinkContext} {truncates : Bool}

theorem prepareForTotalSize_touched (small : size < 2 ^ 64)
    (prepared : context.prepareForTotalSize db size = some (context', db')) :
    Db.Touched context.inodeId db db' ∧ context'.inodeId = context.inodeId := by
  unfold FileDataSinkContext.prepareForTotalSize at prepared
  split at prepared
  · cases prepared
    exact ⟨.refl _ _, rfl⟩
  · obtain ⟨db₁, truncated, rest⟩ := Option.bind_eq_some_iff.mp prepared
    obtain ⟨context₁, loaded, same⟩ := Option.bind_eq_some_iff.mp rest
    cases same
    refine ⟨mtlTruncate_touched (by decide) small truncated, ?_⟩
    unfold FileDataSinkContext.loadExtents at loaded
    split at loaded
    · cases loaded
    · cases loaded
      rfl

theorem create_touched
    (created : FileDataSinkContext.create db id offset size truncates = some (context', db')) :
    Db.Touched id db db' ∧ context'.inodeId = id := by
  obtain ⟨context₁, loaded, prepared⟩ := Option.bind_eq_some_iff.mp created
  unfold FileDataSinkContext.loadExtents at loaded
  split at loaded
  · cases loaded
  · cases loaded
    exact prepareForTotalSize_touched (u64_lt _) prepared

theorem configure_touched (configured : context.configure db size = some (context', db')) :
    Db.Touched context.inodeId db db' ∧ context'.inodeId = context.inodeId := by
  unfold FileDataSinkContext.configure at configured
  dsimp only at configured
  split at configured
  · have touched := prepareForTotalSize_touched (u64_lt _) configured
    exact touched
  · cases configured
    exact ⟨.refl _ _, rfl⟩

theorem finalize_touched {endOfInput : Bool}
    (finalized : context.finalize db size endOfInput = some (context', db')) :
    Db.Touched context.inodeId db db' := by
  unfold FileDataSinkContext.finalize at finalized
  dsimp only at finalized
  split at finalized
  · obtain ⟨db₁, truncated, same⟩ := Option.bind_eq_some_iff.mp finalized
    cases same
    exact mtlTruncate_touched (by decide) (u64_lt _) truncated
  · cases finalized
    exact .refl _ _

theorem PipelineStorage.writes_touched
    (writes : PipelineStorage.Writes mover db card id offset buffer size db' card') :
    Db.Touched id db db' := by
  obtain ⟨sink, db₁, sink', created, sink₂, db₂, extmaps, outputSize, configured, -, -, finalized⟩ :=
    writes
  obtain ⟨first, same⟩ := create_touched created
  obtain ⟨second, same'⟩ := configure_touched configured
  have third := finalize_touched finalized
  rw [same', same] at third
  rw [same] at second
  exact (first.trans second).trans third

end Touched

/-! ## Every run -/

section Runs

variable {mover : Datamover} {fs fs' : CardFs} {t : FileTree} {ns : Namespace} {call : FsCall}
  {op : CardOp}

/-- The inode of an operation. -/
def CardOp.inodeId : CardOp → Nat
  | write id _ _ _ => id
  | truncate id _ => id
  | read id _ _ _ => id

theorem CardOp.step_touched (ok : op.Ok fs t.files) (step : op.Step mover fs fs') :
    Db.Touched op.inodeId fs.db fs'.db := by
  cases op with
  | write id buffer size offset =>
    obtain ⟨db, expanded, writes⟩ := step
    exact (expandLoop_touched expanded).trans (PipelineStorage.writes_touched writes)
  | truncate id offset => exact mtlTruncate_touched (by decide) ok.2.1 step.2
  | read id buffer size offset =>
    rw [step.1]
    exact .refl _ _

/-- The contents that an operation leaves its file. -/
theorem CardOp.expect_eq (ok : op.Ok fs t.files) :
    (t.files op.inodeId).isSome ∧
      ∃ c, op.expect fs t.files = Function.update t.files op.inodeId (some c) := by
  cases op with
  | write id buffer size offset =>
    obtain ⟨c, expected⟩ := Option.isSome_iff_exists.mp ok.2.1
    refine ⟨ok.2.1, (c.grow (offset + size)).write (fetch fs.card.bus buffer size) offset, ?_⟩
    rw [CardOp.expect, expected]
    rfl
  | truncate id offset =>
    obtain ⟨c, expected⟩ := Option.isSome_iff_exists.mp ok.1
    refine ⟨ok.1, c.truncate offset, ?_⟩
    rw [CardOp.expect, expected]
    rfl
  | read id buffer size offset =>
    obtain ⟨c, expected⟩ := Option.isSome_iff_exists.mp ok.2.1
    exact ⟨ok.2.1, c, (Function.update_eq_self_iff.mpr expected.symm).symm⟩

/-- The databases and the card have the tree of a namespace. -/
structure FileTree.Holds (t : FileTree) (fs : CardFs) (ns : Namespace) : Prop where
  named : Named fs.db ns t.files
  names : ns.tree = t.names
  contents : CardFiles fs.db fs.card.bus t.files

theorem FileTree.Holds.shows (holds : t.Holds fs ns) : Shows fs t := by
  obtain ⟨named, names, contents⟩ := holds
  have env : MetalFs.Holds ⟨fs.db.skeleton, false⟩ ns := ⟨rfl, named.represents, named.tree⟩
  refine ⟨?_, ?_, ?_, contents⟩
  · intro p isName
    rw [← open_skeleton, ← names]
    exact env.opens isName
  · intro p isName
    rw [← getInode_skeleton, ← names]
    exact env.gets isName
  · intro p node isName found
    rw [named.kinds]
    rw [← names] at found
    obtain ⟨failed, finds⟩ := named.tree.find_tree isName
    cases resolved : ns.resolve p with
    | error code =>
      rw [failed code resolved] at found
      cases found
    | ok i =>
      obtain ⟨type, typed⟩ := Namespace.type_of_live (named.tree.live_of_resolve isName resolved)
      rw [finds i type resolved typed] at found
      cases found
      rw [typed, Option.some.injEq]

/-- A path call leaves the bytes of all files but the one it makes or removes. -/
theorem CardFiles.path {db db' : Db} {bus : Bus} {files files' : Files}
    (card : CardFiles db bus files) (inv : db'.Inv pipelineMetadata)
    (keeps : db.KeepsContents db' files files') : CardFiles db' bus files' := by
  refine ⟨inv, ?_⟩
  intro id c expected
  rcases keeps expected with ⟨rfl, inode, file, length⟩ | ⟨old, kept⟩
  · exact ⟨inode, [], file, length, Nat.zero_le _, fun p b written => by cases written⟩
  · obtain ⟨inode, l, file, rest⟩ := card.file old
    exact ⟨inode, l, kept _ _ file, rest⟩

/-- A call returns, gives back what it should and does to the tree what it should. -/
theorem FsCall.step_holds (documented : mover.Documented) (holds : t.Holds fs ns)
    (ok : call.Ok fs t) :
    (∃ fs', call.Step mover fs fs') ∧ ∀ fs', call.Step mover fs fs' →
      call.Returned fs fs' t ∧ ∃ ns', (call.expect fs t).Holds fs' ns' := by
  obtain ⟨named, names, contents⟩ := holds
  cases call with
  | path u op =>
    obtain ⟨admitted, frees⟩ := ok
    have allowed := named.represents.allowed named.tree (admitted_skeleton.mpr admitted)
    obtain ⟨db', done⟩ := named.step contents.inv (by decide) admitted frees u
    refine ⟨⟨⟨db', fs.card⟩, rfl, done.step⟩, ?_⟩
    rintro ⟨db₁, card'⟩ ⟨rfl, stepped⟩
    rw [done.step] at stepped
    cases stepped
    have after := named.tree.after_tree allowed
    rw [names] at after
    refine ⟨⟨rfl, ?_⟩, ns.after op, ?_, after, ?_⟩
    · rw [← names]
      exact done.code
    · rw [FsCall.expect, ← names]
      exact done.named
    · rw [FsCall.expect, ← names]
      exact contents.path done.inv done.contents
  | file op =>
    obtain ⟨returns, steps⟩ := CardOp.step_cardFiles documented contents ok
    refine ⟨returns, ?_⟩
    intro fs' step
    obtain ⟨contents', returned⟩ := steps fs' step
    obtain ⟨known, c, same⟩ := CardOp.expect_eq ok
    refine ⟨returned, ns, ?_, names, contents'⟩
    obtain ⟨inode, l, file, -⟩ := contents'.file (show op.expect fs t.files op.inodeId = some c by
      rw [same, Function.update_self])
    rw [FsCall.expect, same]
    exact named.touched (CardOp.step_touched ok step) known file

/-- A run of calls that are `Ok` where they are made, with the tree that is expected beside the
state.  Between two calls host memory changes in any way, and so do the extent maps. -/
inductive FsRun (mover : Datamover) : CardFs → FileTree → List FsCall → CardFs → FileTree → Prop
  | done (fs : CardFs) (t : FileTree) : FsRun mover fs t [] fs t
  | call {fs fs₁ fs' : CardFs} {t t' : FileTree} {call : FsCall} {card : Card}
      {later : List FsCall} : call.Ok fs t → call.Step mover fs fs₁ →
      dramOf card.bus = dramOf fs₁.card.bus →
      FsRun mover ⟨fs₁.db, card⟩ (call.expect fs t) later fs' t' →
      FsRun mover fs t (call :: later) fs' t'

theorem FsRun.holds (documented : mover.Documented) {t' : FileTree} {calls : List FsCall}
    (run : FsRun mover fs t calls fs' t') (holds : t.Holds fs ns) :
    ∃ ns', t'.Holds fs' ns' := by
  induction run generalizing ns with
  | done fs t => exact ⟨ns, holds⟩
  | call ok step same _ ih =>
    obtain ⟨-, steps⟩ := FsCall.step_holds documented holds ok
    obtain ⟨-, ns₁, named, names, contents⟩ := steps _ step
    exact ih ⟨named, names, contents.of_dram same⟩

/-- The tree of a new file system. -/
def FileTree.fresh : FileTree := ⟨.fresh, fun _ => none⟩

/-- After every run of calls on a new file system that meet `FsCall.Ok` where they are made, the
names lead where they should and every file has the bytes it should; the next such call returns,
gives back what it should and keeps it so. -/
theorem fileSystem_run {now : Int} {db : Db} {card : Card} {calls : List FsCall}
    (documented : mover.Documented)
    (initialised : mtlInitialize emptyDb pipelineMetadata now = some db)
    (run : FsRun mover ⟨db, card⟩ .fresh calls fs t) :
    Shows fs t ∧ (call.Ok fs t → (∃ fs', call.Step mover fs fs') ∧
      ∀ fs', call.Step mover fs fs' → call.Returned fs fs' t ∧ Shows fs' (call.expect fs t)) := by
  obtain ⟨db', initialised', fresh⟩ := cardFiles_fresh now card.bus
  rw [initialised] at initialised'
  cases initialised'
  have start : FileTree.fresh.Holds ⟨db, card⟩ Namespace.fresh :=
    ⟨.fresh initialised, Namespace.fresh_nameTree, fresh⟩
  obtain ⟨ns, holds⟩ := run.holds documented start
  refine ⟨holds.shows, ?_⟩
  intro ok
  obtain ⟨returns, steps⟩ := FsCall.step_holds documented holds ok
  refine ⟨returns, ?_⟩
  intro fs' step
  obtain ⟨returned, ns', holds'⟩ := steps fs' step
  exact ⟨returned, holds'.shows⟩

end Runs

/-- A store without files. -/
def noFilesDb : Db := (mtlInitialize emptyDb pipelineMetadata 0).get (by decide +kernel)

theorem isName_fileA : ∀ l ∈ ([] : List (List Byte)) ++ [[byte 97]], IsName l :=
  isName_singleton (l := [byte 97]) (by decide +kernel)

/-- The path of the file. -/
def fileA : Path := ⟨[], [byte 97], isName_fileA⟩

/-- The tree with the file. -/
def treeA : FileTree :=
  ⟨NameTree.fresh.add fileA .file, Function.update (fun _ => none) 1 (some .empty)⟩

/-- The file is made, and ten bytes of host memory are written to it. -/
theorem fileSystem_run_write :
    ∃ fs', (FsCall.file (.write 1 64 10 0)).Step plainDatamover ⟨oneFileDb, countingCard⟩ fs' ∧
      Shows fs' ((FsCall.file (.write 1 64 10 0)).expect ⟨oneFileDb, countingCard⟩ treeA) := by
  have initialised : mtlInitialize emptyDb pipelineMetadata 0 = some noFilesDb := by
    rw [noFilesDb, Option.some_get]
  have applied : NameTree.fresh.apply (.create fileA 0 0) = .ok (NameTree.fresh.add fileA .file) := by
    rfl
  have expect : (FsCall.path zeros (.create fileA 0 0)).expect ⟨noFilesDb, countingCard⟩ .fresh =
      treeA := by
    rw [FsCall.expect, NameTree.after, FileTree.fresh, NameTree.filesAfter_ok applied, applied]
    rfl
  have step : (FsCall.path zeros (.create fileA 0 0)).Step plainDatamover
      ⟨noFilesDb, countingCard⟩ ⟨oneFileDb, countingCard⟩ := ⟨rfl, by rfl⟩
  have run : FsRun plainDatamover ⟨noFilesDb, countingCard⟩ .fresh
      [.path zeros (.create fileA 0 0)] ⟨oneFileDb, countingCard⟩ treeA := by
    refine .call ⟨?_, trivial⟩ step (rfl : dramOf countingCard.bus = _) ?_
    · decide +kernel
    · rw [expect]
      exact .done _ _
  have ok : (FsCall.file (.write 1 64 10 0)).Ok ⟨oneFileDb, countingCard⟩ treeA := by
    refine ⟨by decide, ?_, ⟨by decide, by decide⟩, by decide, by decide +kernel, ?_⟩
    · rfl
    · decide +kernel
  obtain ⟨-, next⟩ := fileSystem_run plainDatamover_documented initialised run
  obtain ⟨⟨fs', step⟩, steps⟩ := next ok
  exact ⟨fs', step, (steps fs' step).2⟩

end MetalFs.Pipeline
