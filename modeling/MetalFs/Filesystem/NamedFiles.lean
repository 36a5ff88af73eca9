import MetalFs.Filesystem.ByteString
import MetalFs.Filesystem.BlockCount
import MetalFs.Filesystem.Skeleton

/-!
# Names and bytes together

The operations on paths on a file system whose files have bytes.  An operation that is `Admitted`
and, if it is `mtl_unlink`, frees the extents of its file without breaking the allocator, does to the
names what the operation on the tree does (`Named.step`) and leaves the extents of every file but the
one it makes or removes alone (`PathOp.KeepsFiles`).
-/

namespace MetalFs

open NameGraph OrderedStore

/-! ## Operations that leave all files alone -/

/-- There are no inodes from the next id on. -/
def Db.Unused (db : Db) : Prop := ∀ id, db.nextInode.getD 1 ≤ id → mtlLoadInode db id = none

/-- The files of both databases are the same. -/
structure Db.SameFiles (db db' : Db) : Prop where
  allocator : db'.allocator = db.allocator
  files : ∀ {id inode l}, db'.FileAt id inode l ↔ db.FileAt id inode l
  unused : db.Unused → db'.Unused

section SameFiles

variable {db db' db'' : Db} {i d : Nat} {inode : Inode} {data : List Byte} {filename : List Byte}
  {u : Uninitialised} {metadata : StorageMetadata}

theorem Db.SameFiles.trans (first : db.SameFiles db') (second : db'.SameFiles db'') :
    db.SameFiles db'' :=
  ⟨second.allocator.trans first.allocator, second.files.trans first.files,
    fun unused => second.unused (first.unused unused)⟩

theorem Db.SameFiles.inv (same : db.SameFiles db') (inv : db.Inv metadata) : db'.Inv metadata :=
  inv.of_newFile same.allocator (fun found => Or.inr (same.files.mp found)) (same.unused inv.unused)

theorem sameFiles_put_directory (length : Nat) (data' : List Byte)
    (loaded : mtlLoadInode db d = some (inode, data)) (directory : inode.type = .directory) :
    db.SameFiles (mtlPutInode db d { inode with length } data') := by
  refine ⟨rfl, fileAt_put_directory length data' loaded directory, ?_⟩
  intro unused id above
  have absent := unused id above
  by_cases this : id = d
  · rw [this, loaded] at absent
    cases absent
  · rw [mtlLoadInode_put_of_ne this, absent]

/-- A new directory. -/
theorem sameFiles_new_directory (absent : mtlLoadInode db i = none)
    (below : i < db.nextInode.getD 1) (directory : inode.type = .directory) :
    db.SameFiles (mtlPutInode db i inode data) := by
  refine ⟨rfl, ?_, ?_⟩
  · intro id inode' l
    by_cases this : id = i
    · subst this
      refine iff_of_false ?_ ?_
      · rintro ⟨loaded, file⟩
        simp only [mtlLoadFile, mtlLoadInode, mtlPutInode, get_put_self, Option.bind_eq_bind,
          Option.bind_some, Option.some.injEq, Prod.mk.injEq] at loaded
        rw [← loaded.1, directory] at file
        cases file
      · rintro ⟨loaded, -⟩
        simp only [mtlLoadFile, absent, Option.bind_eq_bind, Option.bind_none] at loaded
        cases loaded
    · unfold Db.FileAt
      rw [mtlLoadFile_put_of_ne this]
  · intro unused id above
    have other : id ≠ i := by
      rintro rfl
      exact absurd above (Nat.not_le.mpr below)
    rw [mtlLoadInode_put_of_ne other, unused id above]

theorem sameFiles_delete_directory (loaded : mtlLoadInode db i = some (inode, data))
    (directory : inode.type = .directory) : db.SameFiles (mtlDeleteInode db i) := by
  refine ⟨rfl, ?_, ?_⟩
  · intro id inode' l
    by_cases this : id = i
    · subst this
      refine iff_of_false ?_ ?_
      · rintro ⟨found, -⟩
        simp only [mtlLoadFile, mtlLoadInode, mtlDeleteInode, get_del, if_true, Option.bind_eq_bind,
          Option.bind_none] at found
        cases found
      · rintro ⟨found, file⟩
        simp only [mtlLoadFile, loaded, Option.bind_eq_bind, Option.bind_some, Option.some.injEq,
          Prod.mk.injEq] at found
        rw [← found.1, directory] at file
        cases file
    · simp only [Db.FileAt, mtlLoadFile, mtlLoadInode, mtlDeleteInode, get_del_of_ne this]
  · intro unused id above
    rw [mtlLoadInode, mtlDeleteInode, get_del]
    split
    · rfl
    · exact unused id above

theorem mtlAppendInodeIdToDirectory_sameFiles
    (returned : mtlAppendInodeIdToDirectory db d filename i = some (.ok db')) :
    db.SameFiles db' := by
  obtain ⟨dirInode, dirData, length, data, loaded, directory, rfl⟩ :=
    mtlAppendInodeIdToDirectory_ok returned
  exact sameFiles_put_directory length data loaded directory

theorem mtlRemoveEntryFromDirectory_sameFiles {removed : Option Nat}
    (returned : mtlRemoveEntryFromDirectory u db d filename = some (removed, .ok db')) :
    db.SameFiles db' := by
  obtain ⟨dirInode, dirData, length, data, loaded, directory, rfl⟩ :=
    mtlRemoveEntryFromDirectory_ok returned
  exact sameFiles_put_directory length data loaded directory

theorem mtlRemoveDirectory_sameFiles (returned : mtlRemoveDirectory db i = some (.ok db')) :
    db.SameFiles db' := by
  obtain ⟨⟨inode, data⟩, loaded, rest⟩ := Option.bind_eq_some_iff.mp returned
  dsimp only at rest
  split at rest
  · cases rest
  · rename_i directory
    split at rest
    · cases rest
      exact sameFiles_delete_directory loaded (not_not.mp directory)
    · cases rest

theorem mtlCreateDirectoryInDirectory_sameFiles (unused : db.Unused) {mode : Nat} {now : Int}
    (returned : mtlCreateDirectoryInDirectory db d filename mode now = some (.ok (i, db'))) :
    db.SameFiles db' := by
  simp only [mtlCreateDirectoryInDirectory, mtlNextInodeId, Option.bind_eq_bind] at returned
  obtain ⟨appended, append, rest⟩ := Option.bind_eq_some_iff.mp returned
  cases appended with
  | error code => cases rest
  | ok db₁ =>
    obtain ⟨dotted, dot, rest⟩ := Option.bind_eq_some_iff.mp rest
    cases dotted with
    | error code => cases rest
    | ok db₂ =>
      obtain ⟨dottedTwice, dotDot, rest⟩ := Option.bind_eq_some_iff.mp rest
      cases dottedTwice with
      | error code => cases rest
      | ok db₃ =>
        cases rest
        have counted : db.SameFiles { db with nextInode := some (db.nextInode.getD 1 + 1) } :=
          ⟨rfl, Iff.rfl, fun unused id above => unused id (by simp at above; omega)⟩
        obtain ⟨dirInode, dirData, length, data, loaded, directory, rfl⟩ :=
          mtlAppendInodeIdToDirectory_ok append
        -- the directory that gets the name is another one
        have other : db.nextInode.getD 1 ≠ d := by
          rintro rfl
          have absent := unused _ (Nat.le_refl _)
          exact absurd (absent.symm.trans loaded) (by simp)
        have absent : mtlLoadInode (mtlPutInode { db with
            nextInode := some (db.nextInode.getD 1 + 1) } d { dirInode with length } data)
            (db.nextInode.getD 1) = none :=
          (mtlLoadInode_put_of_ne other).trans (unused _ (Nat.le_refl _))
        have made : Db.SameFiles _ (mtlPutInode _ _ (.mk .directory 0 0 0 now now now
            (mode ||| sIfdir)) []) :=
          sameFiles_new_directory absent (Nat.lt_succ_self _) rfl
        exact (((counted.trans (sameFiles_put_directory length data loaded directory)).trans
          made).trans (mtlAppendInodeIdToDirectory_sameFiles dot)).trans
            (mtlAppendInodeIdToDirectory_sameFiles dotDot)

theorem mtlMkdir_sameFiles (unused : db.Unused) {path : List Byte} {mode : Nat} {now : Int}
    (returned : mtlMkdir db path mode now = some (.committed db')) : db.SameFiles db' := by
  obtain ⟨parent, -, rest⟩ := Option.bind_eq_some_iff.mp returned
  cases parent with
  | error code => cases rest
  | ok d =>
    obtain ⟨created, make, rest⟩ := Option.bind_eq_some_iff.mp rest
    cases created with
    | error code => cases rest
    | ok made =>
      cases rest
      exact mtlCreateDirectoryInDirectory_sameFiles unused make

theorem mtlRmdir_sameFiles {path : List Byte}
    (returned : mtlRmdir u db path = some (.committed db')) : db.SameFiles db' := by
  obtain ⟨parent, -, rest⟩ := Option.bind_eq_some_iff.mp returned
  cases parent with
  | error code => cases rest
  | ok d =>
    obtain ⟨⟨removedId, removed⟩, removal, rest⟩ := Option.bind_eq_some_iff.mp rest
    cases removed with
    | error code => cases rest
    | ok db₁ =>
      obtain ⟨deleted, delete, rest⟩ := Option.bind_eq_some_iff.mp rest
      cases deleted with
      | error code => cases rest
      | ok db₂ =>
        cases rest
        exact (mtlRemoveEntryFromDirectory_sameFiles removal).trans
          (mtlRemoveDirectory_sameFiles delete)

theorem mtlRename_sameFiles {path toPath : List Byte}
    (returned : mtlRename u db path toPath = some (.committed db')) : db.SameFiles db' := by
  obtain ⟨parent, -, rest⟩ := Option.bind_eq_some_iff.mp returned
  cases parent with
  | error code => cases rest
  | ok d =>
    obtain ⟨toParent, -, rest⟩ := Option.bind_eq_some_iff.mp rest
    cases toParent with
    | error code => cases rest
    | ok e =>
      obtain ⟨⟨removedId, removed⟩, removal, rest⟩ := Option.bind_eq_some_iff.mp rest
      cases removed with
      | error code => cases rest
      | ok db₁ =>
        obtain ⟨appended, append, rest⟩ := Option.bind_eq_some_iff.mp rest
        cases appended with
        | error code => cases rest
        | ok db₂ =>
          cases rest
          exact (mtlRemoveEntryFromDirectory_sameFiles removal).trans
            (mtlAppendInodeIdToDirectory_sameFiles append)

end SameFiles

/-! ## Removing a file -/

section Unlink

variable {metadata : StorageMetadata} {a : Allocator} {N : Nat} {l : List FileExtent} {db : Db}
  {ns : Namespace} {f : Path} {d i : Nat}

/-- The allocator calls of `mtl_unlink`. -/
def unlinkCalls (l : List FileExtent) : List AllocOp := l.map fun e => .free e.offset

/-- The loop of `mtl_unlink` frees the extents and leaves the others. -/
theorem freeExtents_spec (bound : N < 2 ^ 64) (inv : a.Inv N)
    (own : ∀ e ∈ l, a.Committed e.offset e.length) (nodup : (l.map FileExtent.offset).Nodup)
    (ok : CallsOk a (unlinkCalls l)) :
    ∃ a', freeExtents a l = some a' ∧ a'.Inv N ∧
      ∀ {o n}, (∀ e ∈ l, e.offset ≠ o) → a.Committed o n → a'.Committed o n := by
  induction l generalizing a with
  | nil => exact ⟨a, rfl, inv, fun _ committed => committed⟩
  | cons e l ih =>
    obtain ⟨freeOk, later⟩ := ok
    obtain ⟨x, stored, status, length⟩ := own e List.mem_cons_self
    have notFree : x.status ≠ .free := by rw [status]; exact committed_ne_free
    obtain ⟨a₁, freed, inv₁⟩ := mtlFreeExtent_inv inv bound stored notFree freeOk
    have kept : ∀ {o n}, e.offset ≠ o → a.Committed o n → a₁.Committed o n :=
      Allocator.Committed.freed inv bound stored freeOk freed
    rw [List.map_cons, List.nodup_cons] at nodup
    have others : ∀ e' ∈ l, e.offset ≠ e'.offset := by
      intro e' member same
      exact nodup.1 (by rw [same]; exact List.mem_map_of_mem member)
    obtain ⟨a', walked, inv', kept'⟩ := ih inv₁
      (fun e' member => kept (others e' member) (own e' (List.mem_cons_of_mem _ member)))
      nodup.2 (later a₁ freed)
    refine ⟨a', ?_, inv', ?_⟩
    · simp only [freeExtents, freed, Option.bind_eq_bind, Option.bind_some, walked]
    · intro o n outside committed
      exact kept' (fun e' member => outside e' (List.mem_cons_of_mem _ member))
        (kept (outside e List.mem_cons_self) committed)

/-- `mtl_unlink` of a file takes its entry out of the directory, frees its extents and deletes its
inode. -/
theorem mtlUnlink_file (represents : Represents db.skeleton ns) (tree : ns.Tree)
    (found : ns.Found f d i) (file : ns.type i = some .file) (u : Uninitialised) :
    ∃ db₁ inode l, db.SameFiles db₁ ∧ db.FileAt i inode l ∧
      mtlUnlink u db f.bytes = (freeExtents db.allocator l).map (fun allocator =>
        .committed (mtlDeleteInode { db₁ with allocator } i)) ∧
      mtlUnlink u db.skeleton f.bytes = some (.committed (mtlDeleteInode db₁.skeleton i)) := by
  obtain ⟨entries, node, member⟩ := Namespace.entry_of_child found.child
  obtain ⟨sk₁, removed, -⟩ := represents.remove u node (tree.directories node).distinct member
  rw [remove_skeleton, Option.map_eq_some_iff] at removed
  obtain ⟨⟨removedId, result⟩, removal, same⟩ := removed
  obtain ⟨rfl, taken⟩ := Prod.mk.inj same
  cases result with
  | error code => cases taken
  | ok db₁ =>
    have files := mtlRemoveEntryFromDirectory_sameFiles removal
    obtain ⟨inode, loaded, isFile⟩ := represents.file (Namespace.type_eq_file_iff.mp file)
    rw [skeleton_load, Option.map_eq_some_iff] at loaded
    obtain ⟨⟨inode', data⟩, loaded, same⟩ := loaded
    have sort : inode'.type = .file := by
      unfold withoutExtents at same
      split at same
      · assumption
      · cases same
        exact isFile
    have at' : db.FileAt i inode' (extentsOfBytes (data.length / sizeofFileExtent) data) :=
      ⟨by simp only [mtlLoadFile, loaded, Option.bind_eq_bind, Option.bind_some], sort⟩
    have at₁ := (files.files).mpr at'
    have sk₁ : mtlLoadFile db₁.skeleton i = some (inode', []) := by
      obtain ⟨⟨inode₁, data₁⟩, loaded₁, same₁⟩ := Option.bind_eq_some_iff.mp at₁.1
      obtain rfl : inode₁ = inode' := congrArg Prod.fst (Option.some.inj same₁)
      simp only [mtlLoadFile, skeleton_load, loaded₁, Option.map_some, withoutExtents_file sort,
        Option.bind_eq_bind, Option.bind_some]
      rfl
    have parent : mtlResolveParentDirInode db f.bytes = some (.ok d) := by
      rw [← resolveParent_skeleton, ← found.resolved]
      exact represents.resolveParent tree f.isName
    have base : basename f.bytes = f.name := basename_pathBytes f.name_isName.toIsComponent
    refine ⟨db₁, inode', _, files, at', ?_, ?_⟩
    · rw [mtlUnlink, parent, Option.bind_eq_bind, Option.bind_some, base]
      simp only [Except.toOption, Option.getD_some, removal, Option.bind_eq_bind, Option.bind_some,
        at₁.1, files.allocator]
      cases freeExtents db.allocator _ with
      | none => rfl
      | some allocator => rfl
    · rw [mtlUnlink, resolveParent_skeleton, parent, Option.bind_eq_bind, Option.bind_some, base,
        remove_skeleton]
      simp only [Except.toOption, Option.getD_some, removal, Option.map_some, Option.bind_eq_bind,
        Option.bind_some, Prod.map, id_eq, Except.map, sk₁, freeExtents]

/-- The invariant after the extents of a file are freed and its inode is deleted. -/
theorem Db.Inv.deleteFile (inv : db.Inv metadata) (bound : metadata.numBlocks < 2 ^ 64)
    {inode : Inode} (file : db.FileAt i inode l) (ok : CallsOk db.allocator (unlinkCalls l)) :
    ∃ allocator, freeExtents db.allocator l = some allocator ∧
      (mtlDeleteInode { db with allocator } i).Inv metadata := by
  obtain ⟨allocator, freed, inv', kept⟩ :=
    freeExtents_spec bound inv.allocator (inv.committed file) (inv.nodup file) ok
  have others : ∀ {id inode' l'}, (mtlDeleteInode { db with allocator } i).FileAt id inode' l' →
      id ≠ i ∧ db.FileAt id inode' l' := by
    rintro id inode' l' ⟨found, isFile⟩
    by_cases this : id = i
    · subst this
      simp only [mtlLoadFile, mtlLoadInode, mtlDeleteInode, get_del, if_true, Option.bind_eq_bind,
        Option.bind_none] at found
      cases found
    · refine ⟨this, ?_, isFile⟩
      simp only [mtlLoadFile, mtlLoadInode, mtlDeleteInode, get_del_of_ne this] at found
      exact found
  refine ⟨allocator, freed, inv', ?_, ?_, ?_, ?_, ?_⟩
  · intro id inode' l' found e member
    obtain ⟨other, found⟩ := others found
    exact kept (fun e' member' => inv.apart file found other.symm e' member' e member)
      (inv.committed found e member)
  · intro id inode' l' found
    exact inv.nodup (others found).2
  · intro id id' inode₁ inode₂ l₁ l₂ found found' different
    exact inv.apart (others found).2 (others found').2 different
  · intro id inode' l' found
    exact inv.covered (others found).2
  · intro id above
    rw [mtlLoadInode, mtlDeleteInode, get_del]
    split
    · rfl
    · exact inv.unused id above

end Unlink

/-! ## One operation -/

/-- The frees of `mtl_unlink` do not break the allocator. -/
def PathOp.FreesOk (db : Db) : PathOp → Prop
  | unlink f => ∀ result ∈ mtlOpen db f.bytes, ∀ id ∈ result.toOption, ∀ r ∈ mtlLoadFile db id,
      CallsOk db.allocator (unlinkCalls r.2)
  | _ => True

/-- The contents of the files after a successful operation on the tree. -/
def NameTree.filesOf (t : NameTree) (files : Files) : PathOp → Files
  | .mkdir _ _ _ => files
  | .create _ _ _ => Function.update files t.next (some .empty)
  | .rmdir _ => files
  | .unlink f =>
    match t.find f.names with
    | .ok node => Function.update files node.inodeId none
    | .error _ => files
  | .rename _ _ => files

/-- The contents of the files after an operation on the tree. -/
noncomputable def NameTree.filesAfter (t : NameTree) (files : Files) (op : PathOp) : Files :=
  match t.apply op with
  | .error _ => files
  | .ok _ => t.filesOf files op

/-- The databases hold the names, and the files among them have contents. -/
structure Named (db : Db) (ns : Namespace) (files : Files) : Prop where
  represents : Represents db.skeleton ns
  tree : ns.Tree
  kinds : ∀ id, (files id).isSome ↔ ns.type id = some .file

/-- Every file is there as before, or it is new and empty. -/
def Db.KeepsContents (db db' : Db) (files files' : Files) : Prop :=
  ∀ {id c}, files' id = some c →
    (c = .empty ∧ ∃ inode, db'.FileAt id inode [] ∧ inode.length = 0) ∨
      (files id = some c ∧ ∀ inode l, db.FileAt id inode l → db'.FileAt id inode l)

section Named

variable {metadata : StorageMetadata} {db db' : Db} {ns ns' : Namespace} {files : Files} {op : PathOp}
  {f : Path} {d i : Nat}

theorem Db.KeepsContents.refl (db : Db) (files : Files) : db.KeepsContents db files files :=
  fun expected => Or.inr ⟨expected, fun _ _ found => found⟩

theorem Db.SameFiles.keepsContents (same : db.SameFiles db') (files : Files) :
    db.KeepsContents db' files files :=
  fun expected => Or.inr ⟨expected, fun _ _ found => same.files.mpr found⟩

/-- There is no file with the next id. -/
theorem Named.next_eq_none (named : Named db ns files) : files ns.next = none := by
  rw [← Option.not_isSome_iff_eq_none, named.kinds]
  intro file
  have live : ns.Live ns.next := by
    rw [Namespace.live_iff, file]
    exact Option.some_ne_none _
  exact absurd (named.tree.below live) (Nat.lt_irrefl _)

theorem NameTree.filesAfter_ok {t t' : NameTree} (applied : t.apply op = .ok t') :
    t.filesAfter files op = t.filesOf files op := by
  rw [filesAfter, applied]

theorem NameTree.filesAfter_error {t : NameTree} {code : MtlCode}
    (failed : t.apply op = .error code) : t.filesAfter files op = files := by
  rw [filesAfter, failed]

/-- Making an inode. -/
theorem Named.kinds_make (named : Named db ns files) {contents : Contents}
    (new : Namespace.Tree.IsNew ns d contents) (made : ns.make d f.name contents = .ok ns') (id : Nat) :
    (Function.update files ns.next (if contents.type = .file then some .empty else none) id).isSome ↔
      ns'.type id = some .file := by
  rcases named.tree.make_shape new f.name_isName made with ⟨-, type, -⟩
  rw [type]
  by_cases this : id = ns.next
  · subst this
    rw [Function.update_self, Function.update_self]
    cases contents.type with
    | file => exact iff_of_true rfl rfl
    | directory => exact iff_of_false (by simp) (by simp)
  · rw [Function.update_of_ne this, Function.update_of_ne this]
    exact named.kinds id

/-- Removing a leaf. -/
theorem Named.kinds_remove (named : Named db ns files) {ns₁ : Namespace} (found : ns.Found f d i)
    (removed : ns.Removed d f.name ns₁) (leaf : ∀ c, ns.child i c = none) (id : Nat) :
    (Function.update files i none id).isSome ↔ (ns₁.set i none).type id = some .file := by
  rcases Namespace.Tree.removeLeaf_shape removed found.child leaf with ⟨-, type, -⟩
  rw [type]
  by_cases this : id = i
  · subst this
    rw [Function.update_self, Function.update_self]
    exact iff_of_false (by simp) (by simp)
  · rw [Function.update_of_ne this, Function.update_of_ne this]
    exact named.kinds id

/-- The kinds of inodes after an operation. -/
theorem Named.kinds_after (named : Named db ns files) (allowed : op.Allowed ns) (id : Nat) :
    (ns.tree.filesAfter files op id).isSome ↔ (ns.after op).type id = some .file := by
  have tree := named.tree
  have applied := tree.apply_tree allowed
  rw [Namespace.after]
  cases result : ns.apply op with
  | error code =>
    rw [result] at applied
    rw [NameTree.filesAfter_error applied]
    exact named.kinds id
  | ok ns' =>
    rw [result] at applied
    rw [NameTree.filesAfter_ok applied]
    dsimp only [Except.toOption, Option.getD_some]
    cases op with
    | mkdir f mode now =>
      rcases Interrupt.bind_eq_ok result with ⟨d, -, made⟩
      have kinds := named.kinds_make (Or.inr rfl) made id
      rwa [show Contents.type (.directory _) = .directory from rfl, if_neg (by simp),
        Function.update_eq_self_iff.mpr named.next_eq_none.symm] at kinds
    | create f mode now =>
      rcases Interrupt.bind_eq_ok result with ⟨d, -, made⟩
      have kinds := named.kinds_make (Or.inl rfl) made id
      rwa [show Contents.type .file = .file from rfl, if_pos rfl] at kinds
    | rmdir f =>
      cases tree.change allowed result with
      | made makes => cases makes
      | @removed _ _ d i ns₁ sort found removed leaf =>
        rcases sort with same | same
        · cases same
          rcases Namespace.type_of_live (tree.rooted.walk_live found.walk_names) with ⟨type, typed⟩
          -- a directory has no contents
          have bare : files i = none := by
            rw [← Option.not_isSome_iff_eq_none, named.kinds, typed]
            intro file
            have failed : ns.tree.apply (.rmdir f) = _ :=
              (NameTree.rmdir_cases (tree.find_found found typed)).1 (Option.some.inj file)
            rw [failed] at applied
            cases applied
          have kinds := named.kinds_remove found removed leaf id
          rwa [Function.update_eq_self_iff.mpr bare.symm] at kinds
        · cases same
    | unlink f =>
      have change := tree.change allowed result
      rcases allowed with ⟨d, i, found, file⟩
      cases change with
      | made makes => cases makes
      | @removed _ _ d' i' ns₁ sort found' removed leaf =>
        rcases sort with same | same
        · cases same
        · cases same
          have here := found.walk_names.symm.trans found'.walk_names
          cases here
          rw [NameTree.filesOf, tree.find_found found file]
          exact named.kinds_remove found' removed leaf id
    | rename f g =>
      cases tree.change allowed result with
      | made makes => cases makes
      | removed sort => rcases sort with same | same <;> cases same
      | moved found resolved removed outside moved =>
        rcases Namespace.Tree.move_shape removed g.name_isName moved with ⟨-, type, -⟩
        rw [type]
        exact named.kinds id

/-- What an operation has done: it returned the code of the operation on the tree, the names are as
there, and no other file was touched. -/
structure PathOp.Done (metadata : StorageMetadata) (op : PathOp) (u : Uninitialised) (db : Db)
    (ns : Namespace) (files : Files) (db' : Db) : Prop where
  step : PathOp.step ⟨db, false⟩ (u, op) = some ⟨db', false⟩
  code : ∃ ended, op.call.txn u db = some ended ∧ ended.code = ns.tree.code op
  named : Named db' (ns.after op) (ns.tree.filesAfter files op)
  inv : db'.Inv metadata
  contents : db.KeepsContents db' files (ns.tree.filesAfter files op)

theorem Named.aborted (named : Named db ns files) (inv : db.Inv metadata) (allowed : op.Allowed ns)
    {u : Uninitialised} {code : MtlCode} (txn : op.call.txn u db = some (.aborted code))
    (failed : ns.apply op = .error code) : op.Done metadata u db ns files db := by
  have applied := named.tree.apply_tree allowed
  have stays : ns.after op = ns := by
    rw [Namespace.after, failed]
    rfl
  rw [failed] at applied
  have same : ns.tree.filesAfter files op = files := NameTree.filesAfter_error applied
  refine ⟨?_, ⟨_, txn, ?_⟩, ?_, inv, ?_⟩
  · rw [PathOp.step, NamespaceOp.step, Env.transact, if_neg Bool.false_ne_true, txn]
    rfl
  · rw [NameTree.code, applied]
    rfl
  · rw [stays, same]
    exact named
  · rw [same]
    exact Db.KeepsContents.refl db files

theorem Named.committed (named : Named db ns files) (allowed : op.Allowed ns) {u : Uninitialised}
    (txn : op.call.txn u db = some (.committed db')) (applied : ns.apply op = .ok ns')
    (represents : Represents db'.skeleton ns') (inv : db'.Inv metadata)
    (contents : db.KeepsContents db' files (ns.tree.filesOf files op)) :
    op.Done metadata u db ns files db' := by
  have applied' := named.tree.apply_tree allowed
  have changed : ns.after op = ns' := by
    rw [Namespace.after, applied]
    rfl
  rw [applied] at applied'
  refine ⟨?_, ⟨_, txn, ?_⟩, ⟨?_, ?_, named.kinds_after allowed⟩, inv, ?_⟩
  · rw [PathOp.step, NamespaceOp.step, Env.transact, if_neg Bool.false_ne_true, txn]
    rfl
  · rw [NameTree.code, applied']
    rfl
  · rw [changed]
    exact represents
  · rw [changed]
    exact (named.tree.change allowed applied).tree named.tree
  · rw [NameTree.filesAfter_ok applied']
    exact contents

theorem mtlCreate_id {filename : List Byte} {mode id : Nat} {now : Int}
    (returned : mtlCreate db filename mode now = some (.ok (id, db'))) :
    id = db.nextInode.getD 1 := by
  obtain ⟨parent, -, rest⟩ := Option.bind_eq_some_iff.mp returned
  cases parent with
  | error code => cases rest
  | ok d =>
    obtain ⟨result, -, rest⟩ := Option.bind_eq_some_iff.mp rest
    cases result with
    | error code => cases rest
    | ok db₁ =>
      cases rest
      rfl

theorem Named.create_contents (named : Named db ns files) (inv : db.Inv metadata)
    {filename : List Byte} {mode id : Nat} {now : Int}
    (returned : mtlCreate db filename mode now = some (.ok (id, db'))) :
    db'.Inv metadata ∧
      db.KeepsContents db' files (Function.update files ns.tree.next (some .empty)) := by
  have spec := mtlCreate_spec inv returned
  have here : id = ns.tree.next := (mtlCreate_id returned).trans named.represents.next
  subst here
  refine ⟨spec.inv, ?_⟩
  intro other c expected
  by_cases this : other = ns.tree.next
  · subst this
    rw [Function.update_self] at expected
    cases expected
    exact Or.inl ⟨rfl, spec.file⟩
  · rw [Function.update_of_ne this] at expected
    exact Or.inr ⟨expected, fun _ _ found => (spec.others this).mpr found⟩

theorem Named.unlink_contents (inv : db.Inv metadata) (bound : metadata.numBlocks < 2 ^ 64)
    {db₁ : Db} {inode : Inode} {l : List FileExtent} (same : db.SameFiles db₁)
    (file : db.FileAt i inode l) (ok : CallsOk db.allocator (unlinkCalls l)) :
    ∃ allocator, freeExtents db.allocator l = some allocator ∧
      (mtlDeleteInode { db₁ with allocator } i).Inv metadata ∧
      db.KeepsContents (mtlDeleteInode { db₁ with allocator } i) files
        (Function.update files i none) := by
  rw [← same.allocator] at ok ⊢
  obtain ⟨allocator, freed, inv'⟩ := (same.inv inv).deleteFile bound (same.files.mpr file) ok
  refine ⟨allocator, freed, inv', ?_⟩
  intro other c expected
  by_cases this : other = i
  · subst this
    rw [Function.update_self] at expected
    cases expected
  · rw [Function.update_of_ne this] at expected
    refine Or.inr ⟨expected, ?_⟩
    intro inode' l' found
    have found := same.files.mpr found
    refine ⟨?_, found.2⟩
    have loaded := found.1
    simp only [mtlLoadFile, mtlLoadInode, mtlDeleteInode, get_del_of_ne this] at loaded ⊢
    exact loaded

/-- An operation that is admitted and does not break the allocator. -/
theorem Named.step (named : Named db ns files) (inv : db.Inv metadata)
    (bound : metadata.numBlocks < 2 ^ 64) (admitted : op.Admitted db) (frees : op.FreesOk db)
    (u : Uninitialised) : ∃ db', op.Done metadata u db ns files db' := by
  have allowed := named.represents.allowed named.tree (admitted_skeleton.mpr admitted)
  by_cases removes : ∃ f, op = .unlink f
  · obtain ⟨f, rfl⟩ := removes
    have exists' := allowed
    obtain ⟨d, i, found, file⟩ := exists'
    obtain ⟨db₁, inode, l, same, at', unlinked, skeleton⟩ :=
      mtlUnlink_file named.represents named.tree found file u
    have opened : mtlOpen db f.bytes = some (.ok i) := by
      rw [← open_skeleton, ← Path.pathOf_names,
        named.represents.open_eq named.tree f.names_isName,
        (Namespace.resolve_ok_iff f.names_isName).mpr found.walk_names]
    obtain ⟨allocator, freed, inv', contents⟩ :=
      Named.unlink_contents inv bound same at' (frees _ opened i rfl _ at'.1)
    obtain ⟨ended, txn, ends⟩ := named.represents.txn named.tree allowed u
    rw [show (PathOp.unlink f).call.txn u db.skeleton = _ from skeleton] at txn
    cases txn
    generalize applied : ns.apply (.unlink f) = result at ends
    cases ends with
    | committed represents =>
      refine ⟨_, named.committed allowed ?_ applied ?_ inv' ?_⟩
      · rw [show (PathOp.unlink f).call.txn u db = _ from unlinked, freed]
        rfl
      · rw [← skeleton_delete]
        exact represents
      · rw [NameTree.filesOf, named.tree.find_found found file]
        exact contents
  · have keeps : ∀ f, op ≠ .unlink f := fun f same => removes ⟨f, same⟩
    obtain ⟨ended', txn', ends⟩ := named.represents.txn named.tree allowed u
    rw [PathOp.txn_skeleton keeps, Option.map_eq_some_iff] at txn'
    obtain ⟨ended, txn, same⟩ := txn'
    generalize applied : ns.apply op = result at ends
    cases ends with
    | aborted code =>
      cases ended with
      | aborted code' =>
        cases same
        exact ⟨db, named.aborted inv allowed txn applied⟩
      | committed db' => cases same
      | leftOpen code' => cases same
    | committed represents =>
      cases ended with
      | aborted code' => cases same
      | leftOpen code' => cases same
      | committed db' =>
        cases same
        cases op with
        | mkdir f mode now =>
          have files' := mtlMkdir_sameFiles inv.unused txn
          exact ⟨db', named.committed allowed txn applied represents (files'.inv inv)
            (files'.keepsContents files)⟩
        | create f mode now =>
          obtain ⟨created, create, rest⟩ := Option.bind_eq_some_iff.mp txn
          cases created with
          | error code => cases rest
          | ok made =>
            cases rest
            obtain ⟨inv', contents⟩ := named.create_contents inv create
            exact ⟨_, named.committed allowed txn applied represents inv' contents⟩
        | rmdir f =>
          have files' := mtlRmdir_sameFiles txn
          exact ⟨db', named.committed allowed txn applied represents (files'.inv inv)
            (files'.keepsContents files)⟩
        | unlink f => exact absurd rfl (keeps f)
        | rename f g =>
          have files' := mtlRename_sameFiles txn
          exact ⟨db', named.committed allowed txn applied represents (files'.inv inv)
            (files'.keepsContents files)⟩

/-! ## Operations on one file -/

theorem mtlTruncate_touched {bytes : Nat} (positive : 0 < metadata.blockSize)
    (small : bytes < 2 ^ 64) (returned : mtlTruncate metadata db i bytes = some db') :
    Db.Touched i db db' := by
  obtain ⟨⟨inode, l⟩, -, rest⟩ := Option.bind_eq_some_iff.mp returned
  dsimp only at rest
  split at rest
  · exact expandLoop_touched rest
  · exact truncateLoop_touched positive small rest

/-- An operation on a file that leaves it a file leaves the names as they are. -/
theorem Named.touched (named : Named db ns files) (touched : Db.Touched i db db') {c : FileContent}
    (known : (files i).isSome) {inode : Inode} {l : List FileExtent} (file : db'.FileAt i inode l) :
    Named db' ns (Function.update files i (some c)) := by
  refine ⟨⟨?_, ?_⟩, named.tree, ?_⟩
  · intro j
    have stored := named.represents.stored j
    rw [skeleton_load] at stored ⊢
    by_cases this : j = i
    · subst this
      rw [Namespace.type_eq_file_iff.mp ((named.kinds j).mp known)]
      obtain ⟨⟨inode', data⟩, loaded, same⟩ := Option.bind_eq_some_iff.mp file.1
      obtain rfl : inode' = inode := congrArg Prod.fst (Option.some.inj same)
      exact ⟨inode', by rw [loaded, Option.map_some, withoutExtents_file file.2], file.2⟩
    · rw [touched.frame.inodes j this]
      exact stored
  · exact (congrArg (Option.getD · 1) touched.frame.nextInode).trans named.represents.next
  · intro j
    by_cases this : j = i
    · subst this
      rw [Function.update_self]
      exact iff_of_true rfl ((named.kinds j).mp known)
    · rw [Function.update_of_ne this]
      exact named.kinds j

/-- The names and files of a fresh store. -/
theorem Named.fresh {now : Int} (initialised : mtlInitialize emptyDb metadata now = some db) :
    Named db Namespace.fresh fun _ => none := by
  have represents := Represents.fresh initialised
  refine ⟨⟨?_, represents.next⟩, Namespace.fresh_tree, ?_⟩
  · intro j
    have stored := represents.stored j
    rw [skeleton_load]
    cases node : Namespace.fresh.nodes j with
    | none =>
      rw [node] at stored
      rw [show mtlLoadInode db j = none from stored]
      rfl
    | some contents =>
      rw [node] at stored
      cases contents with
      | file =>
        obtain ⟨inode, loaded, file⟩ := stored
        exact ⟨inode, by rw [loaded, Option.map_some, withoutExtents_file file], file⟩
      | directory entries =>
        obtain ⟨inode, data, loaded, dir⟩ := stored
        exact ⟨inode, data, by rw [loaded, Option.map_some, withoutExtents_directory dir.directory],
          dir⟩
  · intro j
    refine iff_of_false (by simp) ?_
    rw [Namespace.type_eq_file_iff]
    by_cases root : j = 0
    · rw [root, Namespace.fresh_root]
      simp
    · rw [Namespace.fresh_other root]
      simp

end Named

end MetalFs
