import MetalFs.Filesystem.NameTree

/-!
# The names do not depend on the bytes

The operations on paths look at the entries of directories and at the types of inodes, never at the
extents of a file or at the allocator: `Db.skeleton` drops both, and every operation but `mtl_unlink`
does to the skeleton what it does to the databases (`PathOp.txn_skeleton`).  So what is known of the
namespace operations on files without extents holds for all files.  `mtl_unlink` frees the extents
besides (`Named.unlink`).
-/

namespace MetalFs

open OrderedStore

/-- What is stored for an inode, without the extents of a file. -/
def withoutExtents (stored : Inode × List Byte) : Inode × List Byte :=
  if stored.1.type = .file then (stored.1, []) else stored

/-- The databases without extents. -/
def Db.skeleton (db : Db) : Db :=
  ⟨db.inodes.map withoutExtents, emptyDb.allocator, db.nextInode⟩

/-- What the end of a transaction leaves of the skeleton. -/
def TxnEnd.skeleton : TxnEnd → TxnEnd
  | committed db => committed db.skeleton
  | aborted code => aborted code
  | leftOpen code => leftOpen code

section Skeleton

variable {db : Db} {i d : Nat} {filename : List Byte} {inode : Inode} {data : List Byte}

theorem withoutExtents_directory (directory : inode.type = .directory) :
    withoutExtents (inode, data) = (inode, data) :=
  if_neg fun file => by
    rw [directory] at file
    cases file

theorem withoutExtents_file (file : inode.type = .file) :
    withoutExtents (inode, data) = (inode, []) := if_pos file

theorem skeleton_load (db : Db) (i : Nat) :
    mtlLoadInode db.skeleton i = (mtlLoadInode db i).map withoutExtents := get_map _ _ _

theorem skeleton_put_directory (directory : inode.type = .directory) :
    mtlPutInode db.skeleton i inode data = (mtlPutInode db i inode data).skeleton := by
  simp only [Db.skeleton, mtlPutInode, map_put, withoutExtents_directory directory]

theorem skeleton_put_file (file : inode.type = .file) :
    mtlPutInode db.skeleton i inode [] = (mtlPutInode db i inode data).skeleton := by
  simp only [Db.skeleton, mtlPutInode, map_put, withoutExtents_file file]

theorem skeleton_delete (db : Db) (i : Nat) :
    mtlDeleteInode db.skeleton i = (mtlDeleteInode db i).skeleton := by
  simp only [Db.skeleton, mtlDeleteInode, map_del]

theorem skeleton_nextInode (db : Db) : mtlNextInodeId db.skeleton =
    ((mtlNextInodeId db).1, (mtlNextInodeId db).2.skeleton) := rfl

/-! ## The directory functions -/

/-- A directory is loaded from the skeleton as it is, and the type of any inode. -/
theorem skeleton_cases (db : Db) (i : Nat) :
    (mtlLoadInode db i = none ∧ mtlLoadInode db.skeleton i = none) ∨
    (∃ inode data, mtlLoadInode db i = some (inode, data) ∧ inode.type = .directory ∧
      mtlLoadInode db.skeleton i = some (inode, data)) ∨
    ∃ inode data, mtlLoadInode db i = some (inode, data) ∧ inode.type = .file ∧
      mtlLoadInode db.skeleton i = some (inode, []) := by
  rw [skeleton_load]
  cases loaded : mtlLoadInode db i with
  | none => exact Or.inl ⟨rfl, rfl⟩
  | some stored =>
    obtain ⟨inode, data⟩ := stored
    cases type : inode.type with
    | file => exact Or.inr (Or.inr ⟨inode, data, rfl, type, by
        rw [Option.map_some, withoutExtents_file type]⟩)
    | directory => exact Or.inr (Or.inl ⟨inode, data, rfl, type, by
        rw [Option.map_some, withoutExtents_directory type]⟩)

theorem resolveInDirectory_skeleton (db : Db) (d : Nat) (filename : List Byte) :
    mtlResolveInodeInDirectory db.skeleton d filename =
      mtlResolveInodeInDirectory db d filename := by
  unfold mtlResolveInodeInDirectory
  rcases skeleton_cases db d with ⟨none, none'⟩ | ⟨inode, data, loaded, -, loaded'⟩ |
    ⟨inode, data, loaded, file, loaded'⟩
  · rw [none, none']
  · rw [loaded, loaded']
  · simp only [loaded, loaded', Option.bind_eq_bind, Option.bind_some, file, ne_eq, reduceCtorEq,
      not_false_eq_true, if_true]

theorem append_skeleton (db : Db) (d : Nat) (filename : List Byte) (i : Nat) :
    mtlAppendInodeIdToDirectory db.skeleton d filename i =
      (mtlAppendInodeIdToDirectory db d filename i).map (Except.map Db.skeleton) := by
  unfold mtlAppendInodeIdToDirectory
  rcases skeleton_cases db d with ⟨none, none'⟩ | ⟨inode, data, loaded, directory, loaded'⟩ |
    ⟨inode, data, loaded, file, loaded'⟩
  · rw [none, none']
    rfl
  · simp only [loaded, loaded', Option.bind_eq_bind, Option.bind_some, directory, ne_eq,
      not_true_eq_false, if_false]
    cases findDirectoryEntry data inode.length filename (inode.length + 1) none with
    | some entry => rfl
    | none =>
      dsimp only
      rw [skeleton_put_directory rfl]
      rfl
  · simp only [loaded, loaded', Option.bind_eq_bind, Option.bind_some, file, ne_eq, reduceCtorEq,
      not_false_eq_true, if_true]
    rfl

theorem remove_skeleton (u : Uninitialised) (db : Db) (d : Nat) (filename : List Byte) :
    mtlRemoveEntryFromDirectory u db.skeleton d filename =
      (mtlRemoveEntryFromDirectory u db d filename).map
        (Prod.map id (Except.map Db.skeleton)) := by
  unfold mtlRemoveEntryFromDirectory
  rcases skeleton_cases db d with ⟨none, none'⟩ | ⟨inode, data, loaded, directory, loaded'⟩ |
    ⟨inode, data, loaded, file, loaded'⟩
  · rw [none, none']
    rfl
  · simp only [loaded, loaded', Option.bind_eq_bind, Option.bind_some, directory, ne_eq,
      not_true_eq_false, if_false]
    split
    · rfl
    · split
      · rfl
      · rw [skeleton_put_directory rfl]
        rfl
  · simp only [loaded, loaded', Option.bind_eq_bind, Option.bind_some, file, ne_eq, reduceCtorEq,
      not_false_eq_true, if_true]
    rfl

theorem removeDirectory_skeleton (db : Db) (i : Nat) :
    mtlRemoveDirectory db.skeleton i = (mtlRemoveDirectory db i).map (Except.map Db.skeleton) := by
  unfold mtlRemoveDirectory
  rcases skeleton_cases db i with ⟨none, none'⟩ | ⟨inode, data, loaded, directory, loaded'⟩ |
    ⟨inode, data, loaded, file, loaded'⟩
  · rw [none, none']
    rfl
  · simp only [loaded, loaded', Option.bind_eq_bind, Option.bind_some, directory, ne_eq,
      not_true_eq_false, if_false]
    split
    · rw [skeleton_delete]
      rfl
    · rfl
  · simp only [loaded, loaded', Option.bind_eq_bind, Option.bind_some, file, ne_eq, reduceCtorEq,
      not_false_eq_true, if_true]
    rfl

theorem createFile_skeleton (db : Db) (d : Nat) (filename : List Byte) (mode : Nat) (now : Int) :
    mtlCreateFileInDirectory db.skeleton d filename mode now =
      (mtlCreateFileInDirectory db d filename mode now).map
        (Except.map (Prod.map id Db.skeleton)) := by
  unfold mtlCreateFileInDirectory
  simp only [skeleton_nextInode, append_skeleton, Option.bind_eq_bind]
  cases mtlAppendInodeIdToDirectory (mtlNextInodeId db).2 d filename (mtlNextInodeId db).1 with
  | none => rfl
  | some appended =>
    cases appended with
    | error code => rfl
    | ok db₁ =>
      simp only [Option.map_some, Option.bind_some, Except.map]
      rw [skeleton_put_file rfl]
      rfl

theorem createDirectory_skeleton (db : Db) (d : Nat) (filename : List Byte) (mode : Nat)
    (now : Int) :
    mtlCreateDirectoryInDirectory db.skeleton d filename mode now =
      (mtlCreateDirectoryInDirectory db d filename mode now).map
        (Except.map (Prod.map id Db.skeleton)) := by
  unfold mtlCreateDirectoryInDirectory
  simp only [skeleton_nextInode, append_skeleton, Option.bind_eq_bind]
  cases mtlAppendInodeIdToDirectory (mtlNextInodeId db).2 d filename (mtlNextInodeId db).1 with
  | none => rfl
  | some appended =>
    cases appended with
    | error code => rfl
    | ok db₁ =>
      simp only [Option.map_some, Option.bind_some, Except.map]
      rw [skeleton_put_directory rfl, append_skeleton]
      cases mtlAppendInodeIdToDirectory _ (mtlNextInodeId db).1 dotName (mtlNextInodeId db).1 with
      | none => rfl
      | some dotted =>
        cases dotted with
        | error code => rfl
        | ok db₂ =>
          simp only [Option.map_some, Option.bind_some, Except.map]
          rw [append_skeleton]
          cases mtlAppendInodeIdToDirectory db₂ _ _ d with
          | none => rfl
          | some dottedTwice =>
            cases dottedTwice with
            | error code => rfl
            | ok db₃ => rfl

/-! ## Paths -/

theorem resolve_skeleton (db : Db) (fuel : Nat) (path : List Byte) :
    mtlResolveInode db.skeleton fuel path = mtlResolveInode db fuel path := by
  induction fuel generalizing path with
  | zero => rfl
  | succ fuel ih =>
    unfold mtlResolveInode
    simp only [ih, resolveInDirectory_skeleton]

theorem resolveParent_skeleton (db : Db) (path : List Byte) :
    mtlResolveParentDirInode db.skeleton path = mtlResolveParentDirInode db path := by
  simp only [mtlResolveParentDirInode, resolve_skeleton]

theorem open_skeleton (db : Db) (path : List Byte) : mtlOpen db.skeleton path = mtlOpen db path :=
  resolve_skeleton db _ path

theorem getInode_skeleton (db : Db) (path : List Byte) :
    mtlGetInode db.skeleton path = mtlGetInode db path := by
  unfold mtlGetInode
  rw [resolve_skeleton]
  congr 1
  funext resolved
  cases resolved with
  | error code => rfl
  | ok i =>
    dsimp only
    rcases skeleton_cases db i with ⟨none, none'⟩ | ⟨inode, data, loaded, -, loaded'⟩ |
      ⟨inode, data, loaded, -, loaded'⟩
    · rw [none, none']
    · rw [loaded, loaded']
    · rw [loaded, loaded']

theorem admitted_skeleton {op : PathOp} : op.Admitted db.skeleton ↔ op.Admitted db := by
  cases op with
  | mkdir f mode now => exact Iff.rfl
  | create f mode now => exact Iff.rfl
  | rmdir f => simp only [PathOp.Admitted, getInode_skeleton]
  | unlink f => simp only [PathOp.Admitted, getInode_skeleton]
  | rename f g => simp only [PathOp.Admitted, getInode_skeleton]

/-! ## The operations -/

theorem mkdir_skeleton (db : Db) (path : List Byte) (mode : Nat) (now : Int) :
    mtlMkdir db.skeleton path mode now = (mtlMkdir db path mode now).map TxnEnd.skeleton := by
  unfold mtlMkdir
  rw [resolveParent_skeleton]
  cases mtlResolveParentDirInode db path with
  | none => rfl
  | some parent =>
    cases parent with
    | error code => rfl
    | ok d =>
      simp only [Option.bind_eq_bind, Option.bind_some, createDirectory_skeleton]
      cases mtlCreateDirectoryInDirectory db d (basename path) mode now with
      | none => rfl
      | some created =>
        cases created with
        | error code => rfl
        | ok made => rfl

theorem create_skeleton (db : Db) (path : List Byte) (mode : Nat) (now : Int) :
    createTxn db.skeleton path mode now = (createTxn db path mode now).map TxnEnd.skeleton := by
  unfold createTxn mtlCreate
  rw [resolveParent_skeleton]
  cases mtlResolveParentDirInode db path with
  | none => rfl
  | some parent =>
    cases parent with
    | error code => rfl
    | ok d =>
      simp only [Option.bind_eq_bind, Option.bind_some, createFile_skeleton]
      cases mtlCreateFileInDirectory db d (basename path) mode now with
      | none => rfl
      | some created =>
        cases created with
        | error code => rfl
        | ok made => rfl

theorem rmdir_skeleton (u : Uninitialised) (db : Db) (path : List Byte) :
    mtlRmdir u db.skeleton path = (mtlRmdir u db path).map TxnEnd.skeleton := by
  unfold mtlRmdir
  rw [resolveParent_skeleton]
  cases mtlResolveParentDirInode db path with
  | none => rfl
  | some parent =>
    cases parent with
    | error code => rfl
    | ok d =>
      simp only [Option.bind_eq_bind, Option.bind_some, remove_skeleton]
      cases mtlRemoveEntryFromDirectory u db d (basename path) with
      | none => rfl
      | some removal =>
        obtain ⟨removedId, removed⟩ := removal
        cases removed with
        | error code => rfl
        | ok db₁ =>
          simp only [Option.map_some, Option.bind_some, Prod.map, Except.map, id_eq,
            removeDirectory_skeleton]
          cases mtlRemoveDirectory db₁ (removedId.getD u.inodeId) with
          | none => rfl
          | some deleted =>
            cases deleted with
            | error code => rfl
            | ok db₂ => rfl

theorem rename_skeleton (u : Uninitialised) (db : Db) (path toPath : List Byte) :
    mtlRename u db.skeleton path toPath = (mtlRename u db path toPath).map TxnEnd.skeleton := by
  unfold mtlRename
  rw [resolveParent_skeleton, resolveParent_skeleton]
  cases mtlResolveParentDirInode db path with
  | none => rfl
  | some parent =>
    cases parent with
    | error code => rfl
    | ok d =>
      cases mtlResolveParentDirInode db toPath with
      | none => rfl
      | some toParent =>
        cases toParent with
        | error code => rfl
        | ok e =>
          simp only [Option.bind_eq_bind, Option.bind_some, remove_skeleton]
          cases mtlRemoveEntryFromDirectory u db d (basename path) with
          | none => rfl
          | some removal =>
            obtain ⟨removedId, removed⟩ := removal
            cases removed with
            | error code => rfl
            | ok db₁ =>
              simp only [Option.map_some, Option.bind_some, Prod.map, Except.map, id_eq,
                append_skeleton]
              cases mtlAppendInodeIdToDirectory db₁ e (basename toPath)
                (removedId.getD u.inodeId) with
              | none => rfl
              | some appended =>
                cases appended with
                | error code => rfl
                | ok db₂ => rfl

/-- The operations that do not remove a file do to the skeleton what they do to the databases. -/
theorem PathOp.txn_skeleton {op : PathOp} (keeps : ∀ f, op ≠ .unlink f) (u : Uninitialised)
    (db : Db) : op.call.txn u db.skeleton = (op.call.txn u db).map TxnEnd.skeleton := by
  cases op with
  | mkdir f mode now => exact mkdir_skeleton db _ mode now
  | create f mode now => exact create_skeleton db _ mode now
  | rmdir f => exact rmdir_skeleton u db _
  | unlink f => exact absurd rfl (keeps f)
  | rename f g => exact rename_skeleton u db _ _

end Skeleton

end MetalFs
