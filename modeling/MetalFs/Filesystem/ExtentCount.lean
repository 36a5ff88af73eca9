import MetalFs.Filesystem.BlockCount
import MetalFs.Filesystem.Storage

/-!
# The number of extents of a file

`mtl_load_extent_list` refuses to load more than `MTL_MAX_EXTENTS` extents, and both storage backends
rely on it.  Only `mtl_add_extent_to_file` makes the list of a file longer, and it does not look at
how long the list is.  Two files that are grown in turn, a block at a time, get an extent in every
turn (`Striped`), so that they soon have too many.
-/

namespace MetalFs

open OrderedStore

/-! ## Growing -/

/-- The reservation has grown the last extent of the file. -/
def Joins (lastExtent : FileExtent) (offset : Nat) : Prop :=
  lastExtent.length ≠ 0 ∧ lastExtent.offset = offset

instance Joins.decidable (lastExtent : FileExtent) (offset : Nat) :
    Decidable (Joins lastExtent offset) := instDecidableAnd

/-- The rounds of `mtl_expand_inode` that add an extent to the file find room for it. -/
def RoundsRoom (need : Nat) : Nat → Allocator → Nat → FileExtent → Nat → Prop
  | 0, _, _, _, _ => True
  | fuel + 1, a, current, lastExtent, count =>
    current < need →
      ∀ r ∈ mtlReserveExtent a (need - current) (lastExtentArg lastExtent) true,
        ∀ offset ∈ r.2.1,
          (Joins lastExtent offset ∨ count < mtlMaxExtents) ∧
            RoundsRoom need fuel r.2.2 (u64 (current + r.1))
              (growLastExtent lastExtent ⟨offset, r.1⟩)
              (if Joins lastExtent offset then count else count + 1)

/-- Growing the file to `bytes` bytes adds no extent to `MTL_MAX_EXTENTS` others. -/
def GrowthRoom (metadata : StorageMetadata) (db : Db) (id bytes : Nat) : Prop :=
  ∀ r ∈ mtlLoadFile db id, r.1.type = .file →
    RoundsRoom (blocksFor metadata.blockSize bytes)
      (blocksFor metadata.blockSize bytes - u64 (r.2.map FileExtent.length).sum) db.allocator
      (u64 (r.2.map FileExtent.length).sum) (r.2.getLastD ⟨0, 0⟩) r.2.length

/-- If the operation grows a file, there is room for the extents it adds. -/
def FileOp.Room (metadata : StorageMetadata) (env : Env) (op : FileOp) : Prop :=
  ∀ g ∈ op.growsTo env.db, GrowthRoom metadata env.db g.1 g.2

/-- The extents of every file can be loaded. -/
def Db.Loadable (db : Db) : Prop := ∀ id inode l, db.FileAt id inode l → l.length ≤ mtlMaxExtents

variable {metadata : StorageMetadata} {db db' : Db} {id bytes offset : Nat} {inode : Inode}
  {l : List FileExtent} {lastExtent : FileExtent}

/-- One more extent, if the reservation has not grown the last one. -/
theorem assignExtent_length {newExtent : FileExtent} {newLength : Nat}
    (loaded : mtlLoadFile db id = some (inode, l))
    (assigned : assignExtent db id lastExtent newExtent newLength = some db') :
    ∃ inode' l', mtlLoadFile db' id = some (inode', l') ∧
      l'.length = if Joins lastExtent newExtent.offset then l.length else l.length + 1 := by
  change (if Joins lastExtent newExtent.offset then _ else _) = some db' at assigned
  by_cases joins : Joins lastExtent newExtent.offset
  · rw [if_pos joins] at assigned
    simp only [mtlExtendLastExtentInFile, loaded, Option.bind_eq_bind, Option.bind_some] at assigned
    split at assigned
    · cases assigned
    · rename_i nonempty
      cases assigned
      refine ⟨_, _, mtlLoadFile_put _ _ _ _, ?_⟩
      have positive := List.length_pos_of_ne_nil nonempty
      rw [if_pos joins, List.length_map, List.length_append, List.length_dropLast,
        List.length_singleton]
      omega
  · rw [if_neg joins] at assigned
    simp only [mtlAddExtentToFile, loaded, Option.bind_eq_bind, Option.bind_some] at assigned
    cases assigned
    refine ⟨_, _, mtlLoadFile_put _ _ _ _, ?_⟩
    rw [if_neg joins, List.length_map, List.length_append, List.length_singleton]

/-- The loop of `mtl_expand_inode` adds extents where there is room. -/
theorem expandLoop_room {fuel current : Nat} (loaded : mtlLoadFile db id = some (inode, l))
    (short : l.length ≤ mtlMaxExtents)
    (room : RoundsRoom (blocksFor metadata.blockSize bytes) fuel db.allocator current lastExtent
      l.length)
    (returned : expandLoop metadata id bytes fuel db current lastExtent = some db') :
    ∃ inode' l', mtlLoadFile db' id = some (inode', l') ∧ l'.length ≤ mtlMaxExtents := by
  induction fuel generalizing db inode l lastExtent current with
  | zero =>
    rw [expandLoop] at returned
    split at returned
    · cases returned
    · cases returned
      exact ⟨inode, l, loaded, short⟩
  | succ fuel ih =>
    rw [expandLoop] at returned
    split at returned
    · rename_i missing
      rcases Option.bind_eq_some_iff.mp returned with ⟨⟨n, o, a'⟩, reserved, rest⟩
      dsimp only at rest
      split at rest
      · cases rest
      simp only [Option.bind_eq_bind, Option.bind_eq_some_iff] at rest
      rcases rest with ⟨offset, rfl, db₁, assigned, rest⟩
      rcases room missing _ reserved offset rfl with ⟨free, later⟩
      have loaded' : mtlLoadFile { db with allocator := a' } id = some (inode, l) := loaded
      rcases assignExtent_length loaded' assigned with ⟨inode₁, l₁, loaded₁, length₁⟩
      have allocator₁ : db₁.allocator = a' := by
        rcases assignExtent_put assigned with ⟨inode₂, l₂, l₃, -, rfl⟩
        rfl
      have short₁ : l₁.length ≤ mtlMaxExtents := by
        rw [length₁]
        split_ifs with joins
        · exact short
        · exact free.resolve_left joins
      rw [← length₁] at later
      exact ih loaded₁ short₁ (allocator₁ ▸ later) rest
    · cases returned
      exact ⟨inode, l, loaded, short⟩

theorem Db.Loadable.update (loadable : db.Loadable) (touched : Db.Touched id db db')
    (own : ∀ inode' l', db'.FileAt id inode' l' → l'.length ≤ mtlMaxExtents) : db'.Loadable := by
  intro other inode' l' found
  by_cases this : other = id
  · subst this
    exact own _ _ found
  · exact loadable _ _ _ ((touched.frame.fileAt this).mp found)

theorem mtlExpandInode_loadable (loadable : db.Loadable)
    (loaded : mtlLoadFile db id = some (inode, l)) (room : GrowthRoom metadata db id bytes)
    (returned : mtlExpandInode metadata db id l bytes = some db') : db'.Loadable := by
  have touched : Db.Touched id db db' := expandLoop_touched returned
  refine loadable.update touched ?_
  intro inode' l' file
  rcases file with ⟨found, isFile⟩
  rcases touched.type _ found with ⟨r, found', same⟩
  rw [loaded] at found'
  cases found'
  have isFile' : inode.type = .file := same.symm.trans isFile
  rcases expandLoop_room loaded (loadable _ _ _ ⟨loaded, isFile'⟩) (room _ loaded isFile') returned with
    ⟨inode₁, l₁, found₁, short⟩
  rw [found] at found₁
  cases found₁
  exact short

/-! ## The other operations -/

theorem Db.Loadable.keeps (loadable : db.Loadable) (keeps : Db.KeepsFiles db db') :
    db'.Loadable := by
  intro id inode l found
  rcases keeps.files found with ⟨-, rfl⟩ | ⟨inode', found', -⟩
  · exact Nat.zero_le _
  · exact loadable _ _ _ found'

theorem mtlTruncateFileExtents_length {length count : Nat} {update : Option Nat}
    (loaded : mtlLoadFile db id = some (inode, l))
    (returned : mtlTruncateFileExtents db id length count update = some db') :
    ∃ inode' l', mtlLoadFile db' id = some (inode', l') ∧ l'.length ≤ l.length := by
  simp only [mtlTruncateFileExtents, loaded, Option.bind_eq_bind, Option.bind_some] at returned
  cases returned
  refine ⟨_, _, mtlLoadFile_put _ _ _ _, ?_⟩
  cases update with
  | none =>
    rw [List.length_map, List.length_take]
    exact Nat.min_le_right _ _
  | some n =>
    rw [List.length_map, List.length_modify, List.length_take]
    exact Nat.min_le_right _ _

/-- Shrinking a file adds no extents. -/
theorem truncateLoop_length {extents : List FileExtent} {i start : Nat}
    (loaded : mtlLoadFile db id = some (inode, l))
    (returned : truncateLoop metadata id offset extents i start db = some db') :
    ∃ inode' l', mtlLoadFile db' id = some (inode', l') ∧ l'.length ≤ l.length := by
  induction extents generalizing i start db inode l with
  | nil =>
    cases returned
    exact ⟨inode, l, loaded, Nat.le_refl _⟩
  | cons e extents ih =>
    simp only [truncateLoop, Option.bind_eq_bind] at returned
    split at returned
    · simp only [Option.bind_some, Option.bind_eq_some_iff] at returned
      rcases returned with ⟨a₁, -, rest⟩
      exact @ih { db with allocator := a₁ } inode l _ _ loaded rest
    · split at returned
      · split at returned
        · simp only [Option.bind_eq_some_iff] at returned
          rcases returned with ⟨a₁, -, db₁, updated, rest⟩
          rcases @mtlTruncateFileExtents_length { db with allocator := a₁ } _ _ _ _ _ _ _ loaded
            updated with ⟨inode₁, l₁, loaded₁, fewer⟩
          rcases ih loaded₁ rest with ⟨inode', l', loaded', fewer'⟩
          exact ⟨inode', l', loaded', fewer'.trans fewer⟩
        · simp only [Option.bind_eq_some_iff] at returned
          rcases returned with ⟨a₁, -, db₁, updated, rest⟩
          rcases @mtlTruncateFileExtents_length { db with allocator := a₁ } _ _ _ _ _ _ _ loaded
            updated with ⟨inode₁, l₁, loaded₁, fewer⟩
          rcases ih loaded₁ rest with ⟨inode', l', loaded', fewer'⟩
          exact ⟨inode', l', loaded', fewer'.trans fewer⟩
      · exact ih loaded returned

/-! ## Runs -/

theorem FileOp.txn_loadable (loadable : db.Loadable) (positive : 0 < metadata.blockSize)
    {op : FileOp} (admissible : op.Admissible)
    (room : ∀ g ∈ op.growsTo db, GrowthRoom metadata db g.1 g.2)
    (returned : op.txn metadata db = some (.committed db')) : db'.Loadable := by
  cases op with
  | create filename mode now =>
    rcases Option.bind_eq_some_iff.mp returned with ⟨result, created, rest⟩
    cases result with
    | error code => cases rest
    | ok result =>
      cases rest
      exact loadable.keeps (mtlCreate_keeps created)
  | write inodeId size offset =>
    rcases Option.map_eq_some_iff.mp returned with ⟨db₁, expanded, same⟩
    cases same
    cases loaded : mtlLoadFile db inodeId with
    | none =>
      -- There is no such inode, before and after.
      have touched : Db.Touched inodeId db db' := expandLoop_touched expanded
      refine loadable.update touched ?_
      intro inode' l' file
      rcases touched.type _ file.1 with ⟨r, found, -⟩
      rw [loaded] at found
      cases found
    | some r =>
      rw [loaded] at expanded
      exact mtlExpandInode_loadable loadable loaded (room _ rfl) expanded
  | truncate inodeId offset =>
    rcases Option.map_eq_some_iff.mp returned with ⟨db₁, truncated, same⟩
    cases same
    rcases Option.bind_eq_some_iff.mp truncated with ⟨⟨inode, l⟩, loaded, rest⟩
    dsimp only at rest
    split at rest
    · rename_i long
      have grows : FileOp.growsTo db (.truncate inodeId offset) = some (inodeId, offset) := by
        simp only [FileOp.growsTo, loaded, Option.bind_some, if_pos long]
      exact mtlExpandInode_loadable loadable loaded (room _ grows) rest
    · have touched := truncateLoop_touched positive admissible rest
      refine loadable.update touched ?_
      intro inode' l' file
      rcases file with ⟨found, isFile⟩
      rcases touched.type _ found with ⟨r, found', same⟩
      rw [loaded] at found'
      cases found'
      rcases truncateLoop_length loaded rest with ⟨inode₁, l₁, found₁, fewer⟩
      rw [found] at found₁
      cases found₁
      exact fewer.trans (loadable _ _ _ ⟨loaded, same.symm.trans isFile⟩)
  | chown path uid gid => exact loadable.keeps (mtlChown_keeps returned)
  | rename u fromFilename toFilename => exact loadable.keeps (mtlRename_keeps returned)
  | unlink u filename => exact loadable.keeps (mtlUnlink_keeps returned)

theorem FileOp.step_loadable {env env' : Env} {op : FileOp} (loadable : env.db.Loadable)
    (positive : 0 < metadata.blockSize) (admissible : op.Admissible) (room : op.Room metadata env)
    (returned : op.step metadata env = some env') : env'.db.Loadable := by
  rw [FileOp.step, Env.transact] at returned
  split at returned
  · cases returned
  · rcases Option.map_eq_some_iff.mp returned with ⟨ended, txn, same⟩
    cases ended with
    | committed db =>
      cases same
      exact FileOp.txn_loadable loadable positive admissible room txn
    | aborted code =>
      cases same
      exact loadable
    | leftOpen code =>
      cases same
      exact loadable

/-- In every state that is reached from a fresh store by operations that find room for the extents
they add, the extent list of every file can be loaded. -/
theorem extents_loadable {metadata : StorageMetadata} {now : Int} {db : Db} {env : Env}
    {ops : List FileOp} (positive : 0 < metadata.blockSize)
    (initialised : mtlInitialize emptyDb metadata now = some db)
    (room : Runs.Steps (FileOp.step metadata)
      (fun env op => op.Admissible ∧ FileOp.Room metadata env op) ⟨db, false⟩ ops)
    (finished : Runs.run (FileOp.step metadata) ⟨db, false⟩ ops = some env)
    {id : Nat} {inode : Inode} {l : List FileExtent} (file : env.db.FileAt id inode l) :
    l.length ≤ mtlMaxExtents ∧ mtlLoadExtentList env.db id = .ok (l, inode.length) := by
  have fresh : db.Loadable := by
    rcases mtlInitialize_fresh metadata now with ⟨db₀, returned, noFiles, -⟩
    rw [initialised] at returned
    cases returned
    intro id inode l found
    exact absurd found (noFiles id inode l)
  have loadable : env.db.Loadable := by
    refine Runs.inv_of_run (I := fun env => env.db.Loadable) ?_ fresh room finished
    intro env op env' loadable admitted returned
    exact FileOp.step_loadable loadable positive admitted.1 admitted.2 returned
  have short := loadable _ _ _ file
  refine ⟨short, ?_⟩
  rw [mtlLoadExtentList, file.1]
  exact if_neg (Nat.not_lt.mpr short)

instance RoundsRoom.decidable (need : Nat) :
    ∀ fuel a current lastExtent count, Decidable (RoundsRoom need fuel a current lastExtent count)
  | 0, _, _, _, _ => inferInstanceAs (Decidable True)
  | fuel + 1, a, current, lastExtent, count =>
    have : ∀ a current lastExtent count,
        Decidable (RoundsRoom need fuel a current lastExtent count) := RoundsRoom.decidable need fuel
    inferInstanceAs (Decidable (current < need →
      ∀ r ∈ mtlReserveExtent a (need - current) (lastExtentArg lastExtent) true,
        ∀ offset ∈ r.2.1,
          (Joins lastExtent offset ∨ count < mtlMaxExtents) ∧
            RoundsRoom need fuel r.2.2 (u64 (current + r.1))
              (growLastExtent lastExtent ⟨offset, r.1⟩)
              (if Joins lastExtent offset then count else count + 1)))

instance GrowthRoom.decidable (metadata : StorageMetadata) (db : Db) (id bytes : Nat) :
    Decidable (GrowthRoom metadata db id bytes) :=
  inferInstanceAs (Decidable (∀ r ∈ mtlLoadFile db id, r.1.type = .file →
    RoundsRoom (blocksFor metadata.blockSize bytes)
      (blocksFor metadata.blockSize bytes - u64 (r.2.map FileExtent.length).sum) db.allocator
      (u64 (r.2.map FileExtent.length).sum) (r.2.getLastD ⟨0, 0⟩) r.2.length))

instance FileOp.decidableRoom (metadata : StorageMetadata) (env : Env) (op : FileOp) :
    Decidable (FileOp.Room metadata env op) :=
  inferInstanceAs (Decidable (∀ g ∈ op.growsTo env.db, GrowthRoom metadata env.db g.1 g.2))

/-- Two files that grow in turns; the second one is cut and grown again. -/
def turnOps : List FileOp :=
  [.create (inRoot 97) 0 0, .create (inRoot 98) 0 0, .write 1 700 0, .write 2 10 0, .write 1 700 700,
    .truncate 2 0, .write 2 2000 0, .unlink zeros (inRoot 97)]

def turnDb : Db := (mtlInitialize emptyDb ⟨24, 512⟩ 0).get (by decide +kernel)

def turnEnv : Env := (Runs.run (FileOp.step ⟨24, 512⟩) ⟨turnDb, false⟩ turnOps).get (by decide +kernel)

theorem extents_loadable_turns : ∃ inode l, turnEnv.db.FileAt 2 inode l ∧
    l.length ≤ mtlMaxExtents ∧ mtlLoadExtentList turnEnv.db 2 = .ok (l, inode.length) := by
  have isFile : (mtlLoadFile turnEnv.db 2).map (fun r => r.1.type) = some .file := by
    decide +kernel
  rcases Option.map_eq_some_iff.mp isFile with ⟨⟨inode, l⟩, loaded, type⟩
  have file : turnEnv.db.FileAt 2 inode l := ⟨loaded, type⟩
  have initialised : mtlInitialize emptyDb ⟨24, 512⟩ 0 = some turnDb := (Option.some_get _).symm
  have finished : Runs.run (FileOp.step ⟨24, 512⟩) ⟨turnDb, false⟩ turnOps = some turnEnv :=
    (Option.some_get _).symm
  have room : Runs.Steps (FileOp.step ⟨24, 512⟩)
      (fun env op => op.Admissible ∧ FileOp.Room ⟨24, 512⟩ env op) ⟨turnDb, false⟩ turnOps := by
    decide +kernel
  exact ⟨inode, l, file, extents_loadable (by decide) initialised room finished file⟩

/-! ## Too many extents -/

/-- The first `n` blocks are extents of one block each, and everything behind them is free. -/
structure Striped (a : Allocator) (N n : Nat) : Prop where
  inv : a.Inv N
  stored : ∀ {o e}, a.extents.get o = some e →
    o < n ∧ e.status ≠ .free ∧ e.length = 1 ∨ o = n ∧ e.status = .free

variable {a : Allocator} {N n k m : Nat}

theorem Striped.fresh (positive : 0 < N) : Striped (freshAllocator N) N 0 := by
  refine ⟨Allocator.Inv.initial positive, ?_⟩
  intro o e stored
  have extents : (freshAllocator N).extents = OrderedStore.put ∅ 0
      ⟨N, .free, (mtlHeapInsert ∅ N 0).1⟩ := rfl
  rw [extents, get_put] at stored
  split at stored
  · rename_i same
    cases stored
    exact Or.inr ⟨same, rfl⟩
  · cases stored

/-- A block of the stripes is an extent of its own. -/
theorem Striped.block (striped : Striped a N n) (inside : n < N) {o : Nat} (before : o < n) :
    a.Allocated o 1 := by
  rcases striped.inv.exists_block (Nat.lt_trans before inside) with
    ⟨o', status, e, stored, rfl, low, high⟩
  rcases striped.stored stored with ⟨-, notFree, one⟩ | ⟨rfl, -⟩
  · have same : o' = o := by omega
    subst same
    exact ⟨e, stored, notFree, one⟩
  · omega

/-- The rest of the device is one free extent. -/
theorem Striped.rest (striped : Striped a N n) (inside : n < N) :
    ∃ e, a.extents.get n = some e ∧ e.status = .free ∧ N ≤ n + e.length := by
  rcases striped.inv.exists_block (show N - 1 < N by omega) with
    ⟨o, status, e, stored, -, low, high⟩
  rcases striped.stored stored with ⟨before, -, one⟩ | ⟨rfl, free⟩
  · omega
  · exact ⟨e, stored, free, by omega⟩

/-- A reservation of a block for a file whose last extent is followed by another stripe takes the
next block. -/
theorem Striped.reserve (striped : Striped a N n) (room : n + 1 < N) (bound : N < 2 ^ 64)
    {last : FileExtent} (blocked : last.length = 0 ∨ last.length = 1 ∧ last.offset + 1 < n) :
    ∃ a', mtlReserveExtent a 1 (lastExtentArg last) true = some (1, some n, a') ∧
      Striped a' N (n + 1) := by
  have inside : n < N := Nat.lt_of_succ_lt room
  have isLast : ∀ last' ∈ lastExtentArg last, last' = last ∧ last.length = 1 ∧ last.offset + 1 < n := by
    intro last' member
    rw [lastExtentArg] at member
    split at member
    · rename_i nonzero
      cases member
      exact ⟨rfl, blocked.resolve_left nonzero⟩
    · cases member
  have allocated : ∀ last' ∈ lastExtentArg last, a.Allocated last'.offset last'.length := by
    intro last' member
    rcases isLast last' member with ⟨rfl, one, before⟩
    rw [one]
    exact striped.block inside (Nat.lt_of_succ_lt before)
  have alone : ¬ FollowedByFree a (lastExtentArg last) := by
    intro followed
    rcases followed with ⟨last', member, next, following, free⟩
    rcases isLast last' member with ⟨rfl, one, before⟩
    rw [one] at following
    rcases striped.block inside before with ⟨e, stored, notFree, -⟩
    rw [Option.mem_def.mp following] at stored
    cases stored
    exact notFree free
  rcases striped.rest inside with ⟨rest, isRest, restFree, long⟩
  rcases mtlReserveExtent_of_not_followed striped.inv bound (show 1 < 2 ^ 64 by decide) true
    allocated alone with
    ⟨-, none⟩ | ⟨offset, e, stored, free, returned⟩
  · exact absurd restFree (none n rest isRest)
  · have here : offset = n := by
      rcases striped.stored stored with ⟨-, notFree, -⟩ | ⟨same, -⟩
      · exact absurd free notFree
      · exact same
    subst here
    rw [isRest] at stored
    cases stored
    have cut : 1 < rest.length := by omega
    have inv' := reservedFresh_inv striped.inv Nat.one_pos true isRest
    rw [reservedFresh, if_pos cut] at returned inv'
    refine ⟨_, returned, inv', ?_⟩
    intro o e stored
    simp only [get_put] at stored
    split at stored
    · rename_i same
      cases stored
      exact Or.inl ⟨by omega, commitStatus_ne_free true, rfl⟩
    · split at stored
      · rename_i same
        cases stored
        exact Or.inr ⟨same, rfl⟩
      · rename_i notHere notNext
        rcases striped.stored stored with ⟨before, notFree, one⟩ | ⟨same, -⟩
        · exact Or.inl ⟨Nat.lt_succ_of_lt before, notFree, one⟩
        · exact absurd same notHere

/-- A file of `k` extents of one block each, of which the last one ends before `m`. -/
def StripedFile (db : Db) (blockSize id k m : Nat) : Prop :=
  ∃ inode l, db.FileAt id inode l ∧ inode.length = k * blockSize ∧ l.length = k ∧
    (∀ e ∈ l, e.length = 1) ∧
    ((l.getLastD ⟨0, 0⟩).length = 0 ∨
      (l.getLastD ⟨0, 0⟩).length = 1 ∧ (l.getLastD ⟨0, 0⟩).offset + 1 < m)

theorem StripedFile.congr {blockSize : Nat} (file : StripedFile db blockSize id k m)
    (same : mtlLoadFile db' id = mtlLoadFile db id) {m' : Nat} (later : m ≤ m') :
    StripedFile db' blockSize id k m' := by
  rcases file with ⟨inode, l, ⟨loaded, isFile⟩, length, count, ones, last⟩
  refine ⟨inode, l, ⟨same.trans loaded, isFile⟩, length, count, ones, ?_⟩
  refine last.imp_right ?_
  intro before
  exact ⟨before.1, Nat.lt_of_lt_of_le before.2 later⟩

/-- The blocks of whole blocks. -/
theorem blocksFor_mul {blockSize : Nat} (positive : 0 < blockSize) (k : Nat) :
    blocksFor blockSize (k * blockSize) = k := by
  rw [blocksFor, Nat.mul_mod_left, if_neg (not_not.mpr rfl), Nat.mul_div_cancel _ positive]

/-- A file of stripes that is grown by a block gets one more extent. -/
theorem StripedFile.grow {blockSize : Nat} (file : StripedFile db blockSize id k m)
    (striped : Striped db.allocator N n) (behind : m ≤ n) (room : n + 1 < N) (bound : N < 2 ^ 64)
    (positive : 0 < blockSize) (fits : (k + 1) * blockSize < 2 ^ 64) :
    ∃ db', mtlTruncate ⟨N, blockSize⟩ db id ((k + 1) * blockSize) = some db' ∧
      StripedFile db' blockSize id (k + 1) (n + 2) ∧ Striped db'.allocator N (n + 1) ∧
      ∀ other, other ≠ id → mtlLoadFile db' other = mtlLoadFile db other := by
  rcases file with ⟨inode, l, ⟨loaded, isFile⟩, length, count, ones, last⟩
  have blocked := last.imp_right fun before => And.intro before.1 (before.2.trans_le behind)
  rcases striped.reserve room bound blocked with ⟨a', reserved, striped'⟩
  have sum : (l.map FileExtent.length).sum = k := by
    have same : l.map FileExtent.length = List.replicate k 1 := by
      rw [List.eq_replicate_iff, List.length_map]
      refine ⟨count, ?_⟩
      intro n member
      rcases List.mem_map.mp member with ⟨e, inList, rfl⟩
      exact ones e inList
    rw [same, List.sum_replicate, smul_eq_mul, Nat.mul_one]
  have apart : ¬ Joins (l.getLastD ⟨0, 0⟩) n := by
    intro joins
    rcases blocked with none | ⟨-, before⟩
    · exact joins.1 none
    · have same : (l.getLastD ⟨0, 0⟩).offset = n := joins.2
      omega
  have few : k + 1 < 2 ^ 64 := (Nat.le_mul_of_pos_right _ positive).trans_lt fits
  have current : u64 k = k := u64_of_lt (Nat.lt_of_succ_lt few)
  have newLength : (if u64 ((k + 1) * blockSize) < (k + 1) * blockSize then
      u64 ((k + 1) * blockSize) else (k + 1) * blockSize) = (k + 1) * blockSize := by
    rw [u64_of_lt fits, ite_self]
  have loaded' : mtlLoadFile { db with allocator := a' } id = some (inode, l) := loaded
  have added : assignExtent { db with allocator := a' } id (l.getLastD ⟨0, 0⟩) ⟨n, 1⟩
      ((k + 1) * blockSize) = some (mtlPutInode { db with allocator := a' } id
        { inode with length := (k + 1) * blockSize } (extentBytes (l ++ [⟨n, 1⟩]))) := by
    refine (if_neg apart).trans ?_
    simp only [mtlAddExtentToFile, loaded', Option.bind_eq_bind, Option.bind_some]
  refine ⟨mtlPutInode { db with allocator := a' } id { inode with length := (k + 1) * blockSize }
    (extentBytes (l ++ [⟨n, 1⟩])), ?_, ?_, striped', ?_⟩
  · have long : k * blockSize ≤ (k + 1) * blockSize := Nat.mul_le_mul_right _ (Nat.le_succ k)
    have one : k + 1 - k = 1 := Nat.add_sub_cancel_left k 1
    rw [mtlTruncate, loaded, Option.bind_eq_bind, Option.bind_some]
    dsimp only
    rw [length, if_pos long, mtlExpandInode, sum, current]
    dsimp only
    rw [blocksFor_mul positive, one, expandLoop, blocksFor_mul positive, if_pos (Nat.lt_succ_self k),
      one, reserved, Option.bind_eq_bind, Option.bind_some]
    dsimp only
    rw [if_neg Nat.one_ne_zero, u64_of_lt few, newLength]
    simp only [Option.bind_eq_bind, Option.bind_some, added, expandLoop, blocksFor_mul positive,
      Nat.lt_irrefl, if_false]
  · have small : n < 2 ^ 64 := by omega
    have fits' : ∀ e ∈ l ++ [⟨n, 1⟩], e.Fits := by
      intro e member
      rcases List.mem_append.mp member with old | new
      · exact mtlLoadFile_fits loaded e old
      · rw [List.mem_singleton.mp new]
        exact ⟨small, Nat.one_lt_two_pow (by decide)⟩
    refine ⟨_, _, ⟨mtlLoadFile_put_self fits', isFile⟩, rfl, ?_, ?_, ?_⟩
    · rw [List.length_append, count, List.length_singleton]
    · intro e member
      rcases List.mem_append.mp member with old | new
      · exact ones e old
      · rw [List.mem_singleton.mp new]
    · rw [List.getLastD_concat]
      exact Or.inr ⟨rfl, Nat.lt_succ_self _⟩
  · intro other different
    exact mtlLoadFile_put_of_ne different

/-- The operation returns `MTL_SUCCESS`. -/
def FileOp.Succeeds (metadata : StorageMetadata) (env : Env) (op : FileOp) : Prop :=
  ∃ db', op.txn metadata env.db = some (.committed db')

/-- Two files of `k` blocks that have been grown in turn. -/
structure Striping (env : Env) (N blockSize k : Nat) : Prop where
  released : env.writing = false
  first : StripedFile env.db blockSize 1 k (2 * k)
  second : StripedFile env.db blockSize 2 k (2 * k + 1)
  striped : Striped env.db.allocator N (2 * k)

/-- Two files are grown in turn, from `k` blocks to `k + m` blocks. -/
def growInTurn (blockSize : Nat) : Nat → Nat → List FileOp
  | _, 0 => []
  | k, m + 1 => .truncate 1 ((k + 1) * blockSize) :: .truncate 2 ((k + 1) * blockSize) ::
    growInTurn blockSize (k + 1) m

theorem step_truncate {env : Env} {db' : Db} (released : env.writing = false)
    (returned : mtlTruncate metadata env.db id offset = some db') :
    FileOp.Succeeds metadata env (.truncate id offset) ∧
      FileOp.step metadata env (.truncate id offset) = some ⟨db', false⟩ := by
  have txn : FileOp.txn metadata env.db (.truncate id offset) = some (.committed db') := by
    rw [FileOp.txn, returned, Option.map_some]
  refine ⟨⟨db', txn⟩, ?_⟩
  rw [FileOp.step, Env.transact, released, if_neg Bool.false_ne_true, txn]
  rfl

/-- Every turn succeeds. -/
theorem Striping.run {env : Env} {blockSize : Nat} (striping : Striping env N blockSize k)
    (room : 2 * (k + m) < N) (bound : N < 2 ^ 64) (positive : 0 < blockSize)
    (fits : (k + m) * blockSize < 2 ^ 64) :
    Runs.Steps (FileOp.step ⟨N, blockSize⟩) (FileOp.Succeeds ⟨N, blockSize⟩) env
        (growInTurn blockSize k m) ∧
      ∃ env', Runs.run (FileOp.step ⟨N, blockSize⟩) env (growInTurn blockSize k m) = some env' ∧
        Striping env' N blockSize (k + m) := by
  induction m generalizing env k with
  | zero => exact ⟨trivial, env, rfl, striping⟩
  | succ m ih =>
    have fits' : (k + 1) * blockSize < 2 ^ 64 :=
      (Nat.mul_le_mul_right blockSize (by omega)).trans_lt fits
    rcases striping.first.grow striping.striped (Nat.le_refl _) (by omega) bound positive fits' with
      ⟨db₁, grown₁, first, striped₁, others₁⟩
    rcases step_truncate striping.released grown₁ with ⟨succeeds₁, stepped₁⟩
    have second := striping.second.congr (others₁ 2 (by decide)) (Nat.le_refl _)
    rcases second.grow striped₁ (Nat.le_refl _) (by omega) bound positive fits' with
      ⟨db₂, grown₂, second', striped₂, others₂⟩
    rcases @step_truncate ⟨N, blockSize⟩ 2 ((k + 1) * blockSize) ⟨db₁, false⟩ _ rfl grown₂ with
      ⟨succeeds₂, stepped₂⟩
    have after : Striping ⟨db₂, false⟩ N blockSize (k + 1) :=
      ⟨rfl, first.congr (others₂ 1 (by decide)) (Nat.le_refl _), second', striped₂⟩
    have sum : k + 1 + m = k + (m + 1) := by omega
    rcases ih after (by omega) (by rw [sum]; exact fits) with ⟨succeed, env', finished, final⟩
    rw [sum] at final
    refine ⟨⟨succeeds₁, ?_⟩, env', ?_, final⟩
    · intro env₁ returned
      rw [Option.mem_def, stepped₁] at returned
      cases returned
      refine ⟨succeeds₂, ?_⟩
      intro env₂ returned
      rw [Option.mem_def, stepped₂] at returned
      cases returned
      exact succeed
    · rw [growInTurn, Runs.run, stepped₁, Option.bind_some, Runs.run, stepped₂, Option.bind_some,
        finished]

/-- The in-memory storage with two empty files. -/
def stripedDb : Db := (mtlInitialize emptyDb mtlStorageGetMetadata 1).get (by decide +kernel)

@[inherit_doc stripedDb]
def stripedStart : List FileOp := [.create (inRoot 97) 0 1, .create (inRoot 98) 0 1]

/-- The two databases are equal when they have the same entries. -/
theorem Allocator.eq_of_entries {a a' : Allocator} (extents : a.extents.entries = a'.extents.entries)
    (heap : a.heap.entries = a'.heap.entries) : a = a' := by
  cases a
  cases a'
  rw [Allocator.mk.injEq]
  exact ⟨AList.ext extents, AList.ext heap⟩

instance FileOp.decidableSucceeds (metadata : StorageMetadata) (env : Env) (op : FileOp) :
    Decidable (FileOp.Succeeds metadata env op) := TxnEnd.decidableCommitted _

/-- Both files get more extents than `mtl_load_extent_list` loads, although every call succeeds. -/
theorem not_extents_loadable_striped :
    Runs.Steps (FileOp.step mtlStorageGetMetadata) (FileOp.Succeeds mtlStorageGetMetadata)
        ⟨stripedDb, false⟩ (stripedStart ++ growInTurn 4096 0 513) ∧
      ∃ env, Runs.run (FileOp.step mtlStorageGetMetadata) ⟨stripedDb, false⟩
          (stripedStart ++ growInTurn 4096 0 513) = some env ∧
        ∃ inode l, env.db.FileAt 1 inode l ∧ l.length = 513 ∧
          mtlLoadExtentList env.db 1 = .error .errorInvalidArgument := by
  have created : Runs.Steps (FileOp.step mtlStorageGetMetadata)
      (FileOp.Succeeds mtlStorageGetMetadata) ⟨stripedDb, false⟩ stripedStart := by
    decide +kernel
  have started : Runs.run (FileOp.step mtlStorageGetMetadata) ⟨stripedDb, false⟩ stripedStart =
      some ((Runs.run (FileOp.step mtlStorageGetMetadata) ⟨stripedDb, false⟩ stripedStart).get
        (by decide +kernel)) := (Option.some_get _).symm
  generalize same : (Runs.run (FileOp.step mtlStorageGetMetadata) ⟨stripedDb, false⟩
    stripedStart).get _ = start at started
  have empty : ∀ id ∈ [1, 2], (mtlLoadFile start.db id).map (fun r => (r.1.type, r.1.length, r.2)) =
      some (.file, 0, []) := by
    rw [← same]
    decide +kernel
  have emptyFile : ∀ id ∈ [1, 2], StripedFile start.db 4096 id 0 0 := by
    intro id member
    rcases Option.map_eq_some_iff.mp (empty id member) with ⟨⟨inode, l⟩, loaded, fields⟩
    cases l with
    | nil =>
      refine ⟨inode, [], ⟨loaded, congrArg Prod.fst fields⟩, ?_, rfl, ?_, Or.inl rfl⟩
      · rw [Nat.zero_mul]
        exact congrArg (fun r => r.2.1) fields
      · intro e no
        cases no
    | cons e l => cases congrArg (fun r => r.2.2) fields
  have allocator : start.db.allocator = freshAllocator numBlocks := by
    have extents : start.db.allocator.extents.entries =
        (freshAllocator numBlocks).extents.entries := by
      rw [← same]
      decide +kernel
    have heap : start.db.allocator.heap.entries = (freshAllocator numBlocks).heap.entries := by
      rw [← same]
      decide +kernel
    exact Allocator.eq_of_entries extents heap
  have released : start.writing = false := by
    rw [← same]
    decide +kernel
  have striping : Striping start numBlocks 4096 0 := by
    refine ⟨released, emptyFile 1 (by decide), ?_, ?_⟩
    · exact (emptyFile 2 (by decide)).congr rfl (Nat.zero_le _)
    · rw [allocator]
      exact Striped.fresh (by decide)
  rcases striping.run (m := 513) (by decide) (by decide) (by decide) (by decide) with
    ⟨succeed, env, finished, final⟩
  refine ⟨created.append ?_, env, ?_, ?_⟩
  · intro env' returned
    rw [started] at returned
    cases returned
    exact succeed
  · rw [Runs.run_append, started, Option.bind_some]
    exact finished
  · rcases final.first with ⟨inode, l, file, -, count, -⟩
    refine ⟨inode, l, file, count, ?_⟩
    rw [mtlLoadExtentList, file.1]
    exact if_pos (by rw [count]; decide)

end MetalFs
