import MetalFs.Filesystem.DirectoryEntries
import MetalFs.Filesystem.PathResolution
import MetalFs.Lib.NameGraph

/-!
# The inodes as a namespace

The inodes database without its bytes: a `Namespace` says of every inode id whether it is a file or
a directory with which entries.  The operations of `metal.c` are restated on namespaces, one step of
the code for one step here, and `Represents db ns` connects the two.

* `Represents.append`, `Represents.remove`: the directory functions of `inode.c`;
* `Represents.resolve`: resolving a path;
* `Represents.mkdir`, `Represents.create`, `Represents.rmdir`, `Represents.unlink`,
  `Represents.rename`: an operation on the database ends as the one on the namespace does.
-/

namespace MetalFs

/-- What an inode stands for. -/
inductive Contents where
  | file
  | directory (entries : List DirEntry)

/-- The inodes by their ids, and the next id. -/
structure Namespace where
  nodes : Nat → Option Contents
  next : Nat

namespace Namespace

/-- The inode stands for something else. -/
def set (ns : Namespace) (inodeId : Nat) (contents : Option Contents) : Namespace :=
  { ns with nodes := Function.update ns.nodes inodeId contents }

/-- Look up a name in an inode. -/
def lookup (ns : Namespace) (dirInodeId : Nat) (filename : List Byte) : Except MtlCode Nat :=
  match ns.nodes dirInodeId with
  | some (.directory entries) => lookupName entries filename
  | _ => .error .errorNotdirectory

/-- Look up the components of a path. -/
def resolve (ns : Namespace) (p : List (List Byte)) : Except MtlCode Nat := p.foldlM ns.lookup 0

/-- Append an entry to a directory. -/
def append (ns : Namespace) (dirInodeId : Nat) (filename : List Byte) (inodeId : Nat) :
    Except MtlCode Namespace :=
  match ns.nodes dirInodeId with
  | some (.directory entries) =>
    if filename ∈ entries.map DirEntry.name then .error .errorExists
    else .ok (ns.set dirInodeId (some (.directory (entries ++ [⟨filename, inodeId⟩]))))
  | _ => .error .errorNotdirectory

/-- Take an entry out of a directory. -/
def remove (ns : Namespace) (dirInodeId : Nat) (filename : List Byte) :
    Except MtlCode (Nat × Namespace) :=
  match ns.nodes dirInodeId with
  | some (.directory entries) => do
    let inodeId ← lookupName entries filename
    .ok (inodeId, ns.set dirInodeId (some (.directory (withoutName entries filename))))
  | _ => .error .errorNotdirectory

/-- The entries of a new directory. -/
def newEntries (inodeId dirInodeId : Nat) : List DirEntry :=
  [⟨dotName, inodeId⟩, ⟨dotName ++ dotName, dirInodeId⟩]

/-- Make a new inode with a name in a directory. -/
def make (ns : Namespace) (dirInodeId : Nat) (filename : List Byte) (contents : Contents) :
    Except MtlCode Namespace := do
  let made ← { ns with next := ns.next + 1 }.append dirInodeId filename ns.next
  .ok (made.set ns.next (some contents))

/-- `mtl_mkdir`. -/
def mkdir (ns : Namespace) (p : List (List Byte)) (filename : List Byte) :
    Except MtlCode Namespace := do
  let dirInodeId ← ns.resolve p
  ns.make dirInodeId filename (.directory (newEntries ns.next dirInodeId))

/-- `mtl_create`. -/
def create (ns : Namespace) (p : List (List Byte)) (filename : List Byte) :
    Except MtlCode Namespace := do
  let dirInodeId ← ns.resolve p
  ns.make dirInodeId filename .file

/-- Delete an empty directory. -/
def removeDirectory (ns : Namespace) (inodeId : Nat) : Except MtlCode Namespace :=
  match ns.nodes inodeId with
  | some (.directory entries) =>
    if entries.all DirEntry.isDot then .ok (ns.set inodeId none) else .error .errorNotempty
  | _ => .error .errorNotdirectory

/-- `mtl_rmdir`. -/
def rmdir (ns : Namespace) (p : List (List Byte)) (filename : List Byte) :
    Except MtlCode Namespace := do
  let dirInodeId ← ns.resolve p
  let (inodeId, removed) ← ns.remove dirInodeId filename
  removed.removeDirectory inodeId

/-- `mtl_unlink`. -/
def unlink (ns : Namespace) (p : List (List Byte)) (filename : List Byte) :
    Except MtlCode Namespace := do
  let dirInodeId ← ns.resolve p
  let (inodeId, removed) ← ns.remove dirInodeId filename
  .ok (removed.set inodeId none)

/-- `mtl_rename`. -/
def rename (ns : Namespace) (p : List (List Byte)) (filename : List Byte) (q : List (List Byte))
    (toFilename : List Byte) : Except MtlCode Namespace := do
  let fromDirInodeId ← ns.resolve p
  let toDirInodeId ← ns.resolve q
  let (inodeId, removed) ← ns.remove fromDirInodeId filename
  removed.append toDirInodeId toFilename inodeId

end Namespace

/-! ## Represented namespaces -/

/-- What is stored for one inode.  Nothing has been written to its files. -/
def Stores (stored : Option (Inode × List Byte)) : Option Contents → Prop
  | none => stored = none
  | some .file => ∃ inode, stored = some (inode, []) ∧ inode.type = .file
  | some (.directory entries) => ∃ inode data, stored = some (inode, data) ∧
      DirectoryData inode data entries

/-- The database holds the namespace. -/
structure Represents (db : Db) (ns : Namespace) : Prop where
  stored : ∀ i, Stores (mtlLoadInode db i) (ns.nodes i)
  next : db.nextInode.getD 1 = ns.next

/-- The call ends as the operation on the namespace. -/
inductive Matches : Except MtlCode Db → Except MtlCode Namespace → Prop where
  | ok {db : Db} {ns : Namespace} (represents : Represents db ns) : Matches (.ok db) (.ok ns)
  | error (code : MtlCode) : Matches (.error code) (.error code)

variable {db : Db} {ns : Namespace} {d i : Nat} {filename : List Byte} {entries : List DirEntry}

theorem Represents.file (represents : Represents db ns) (node : ns.nodes i = some .file) :
    ∃ inode, mtlLoadInode db i = some (inode, []) ∧ inode.type = .file := by
  have here := represents.stored i
  rw [node] at here
  exact here

theorem Represents.directory (represents : Represents db ns)
    (node : ns.nodes d = some (.directory entries)) : ∃ inode, db.DirectoryAt d inode entries := by
  have here := represents.stored d
  rw [node] at here
  rcases here with ⟨inode, data, loaded, dir⟩
  exact ⟨inode, data, loaded, dir⟩

/-! ## Changing one inode -/

@[simp] theorem Namespace.set_nodes_self (contents : Option Contents) :
    (ns.set i contents).nodes i = contents := Function.update_self ..

theorem Namespace.set_nodes_of_ne {j : Nat} (different : j ≠ i) (contents : Option Contents) :
    (ns.set i contents).nodes j = ns.nodes j := Function.update_of_ne different ..

theorem Represents.update (represents : Represents db ns) {db' : Db} {contents : Option Contents}
    (others : ∀ j, j ≠ i → mtlLoadInode db' j = mtlLoadInode db j)
    (here : Stores (mtlLoadInode db' i) contents) (next : db'.nextInode = db.nextInode) :
    Represents db' (ns.set i contents) := by
  refine ⟨?_, by rw [next]; exact represents.next⟩
  intro j
  by_cases same : j = i
  · subst same
    rw [Namespace.set_nodes_self]
    exact here
  · rw [Namespace.set_nodes_of_ne same, others j same]
    exact represents.stored j

theorem Represents.put_directory (represents : Represents db ns) {inode : Inode} {data : List Byte}
    (dir : DirectoryData inode data entries) :
    Represents (mtlPutInode db d inode data) (ns.set d (some (.directory entries))) := by
  refine represents.update ?_ ?_ rfl
  · intro j different
    exact mtlLoadInode_put_of_ne different
  · exact ⟨inode, data, OrderedStore.get_put_self _ _ _, dir⟩

theorem Represents.put_file (represents : Represents db ns) {inode : Inode}
    (file : inode.type = .file) :
    Represents (mtlPutInode db i inode []) (ns.set i (some .file)) := by
  refine represents.update ?_ ?_ rfl
  · intro j different
    exact mtlLoadInode_put_of_ne different
  · exact ⟨inode, OrderedStore.get_put_self _ _ _, file⟩

theorem Represents.delete (represents : Represents db ns) (allocator : Allocator) :
    Represents (mtlDeleteInode { db with allocator } i) (ns.set i none) := by
  refine represents.update ?_ ?_ rfl
  · intro j different
    exact OrderedStore.get_del_of_ne different
  · exact (OrderedStore.get_del _ _ _).trans (if_pos rfl)

theorem Represents.nextInode (represents : Represents db ns) :
    (mtlNextInodeId db).1 = ns.next ∧
      Represents (mtlNextInodeId db).2 { ns with next := ns.next + 1 } := by
  refine ⟨represents.next, represents.stored, ?_⟩
  simp only [mtlNextInodeId, Option.getD_some, represents.next]

/-! ## The directory functions -/

/-- The inode is in use. -/
def Namespace.Live (ns : Namespace) (inodeId : Nat) : Prop := ns.nodes inodeId ≠ none

theorem Represents.lookup (represents : Represents db ns) (live : ns.Live d) (filename : List Byte) :
    mtlResolveInodeInDirectory db d filename = some (ns.lookup d filename) := by
  unfold Namespace.lookup
  cases node : ns.nodes d with
  | none => exact absurd node live
  | some contents =>
    cases contents with
    | file =>
      rcases represents.file node with ⟨inode, loaded, file⟩
      simp only [mtlResolveInodeInDirectory, loaded, Option.bind_eq_bind, Option.bind_some, file,
        ne_eq, reduceCtorEq, not_false_eq_true, if_true]
    | directory entries =>
      rcases represents.directory node with ⟨inode, dir⟩
      exact mtlResolveInodeInDirectory_eq dir filename

theorem Represents.append_absent (represents : Represents db ns)
    (node : ns.nodes d = some (.directory entries)) (absent : filename ∉ entries.map DirEntry.name)
    (short : filename.length < 256) (small : i < 2 ^ 64) :
    ∃ db', mtlAppendInodeIdToDirectory db d filename i = some (.ok db') ∧
      Represents db' (ns.set d (some (.directory (entries ++ [⟨filename, i⟩])))) := by
  rcases represents.directory node with ⟨inode, dir⟩
  rcases (mtlAppendInodeIdToDirectory_eq dir filename i).2 absent with ⟨data, -, dirData, done⟩
  exact ⟨_, done, represents.put_directory (dirData.concat short small)⟩

theorem Represents.append (represents : Represents db ns) (live : ns.Live d)
    (short : filename.length < 256) (small : i < 2 ^ 64) :
    ∃ result, mtlAppendInodeIdToDirectory db d filename i = some result ∧
      Matches result (ns.append d filename i) := by
  unfold Namespace.append
  cases node : ns.nodes d with
  | none => exact absurd node live
  | some contents =>
    cases contents with
    | file =>
      rcases represents.file node with ⟨inode, loaded, file⟩
      refine ⟨.error .errorNotdirectory, ?_, .error _⟩
      simp only [mtlAppendInodeIdToDirectory, loaded, Option.bind_eq_bind, Option.bind_some, file,
        ne_eq, reduceCtorEq, not_false_eq_true, if_true]
    | directory entries =>
      dsimp only
      by_cases present : filename ∈ entries.map DirEntry.name
      · rcases represents.directory node with ⟨inode, dir⟩
        rw [if_pos present]
        exact ⟨_, (mtlAppendInodeIdToDirectory_eq dir filename i).1 present, .error _⟩
      · rcases represents.append_absent node present short small with ⟨db', done, represents'⟩
        rw [if_neg present]
        exact ⟨_, done, .ok represents'⟩

theorem Represents.remove (represents : Represents db ns) (u : Uninitialised)
    (node : ns.nodes d = some (.directory entries)) (distinct : (entries.map DirEntry.name).Nodup)
    (member : ⟨filename, i⟩ ∈ entries) :
    ∃ db', mtlRemoveEntryFromDirectory u db d filename = some (some i, .ok db') ∧
      ns.remove d filename = .ok (i, ns.set d (some (.directory (withoutName entries filename)))) ∧
      Represents db' (ns.set d (some (.directory (withoutName entries filename)))) := by
  rcases represents.directory node with ⟨inode, dir⟩
  rcases mtlRemoveEntryFromDirectory_present u dir distinct member with ⟨-, data, removed, dirData⟩
  refine ⟨_, removed, ?_, represents.put_directory dirData⟩
  rw [Namespace.remove, node]
  dsimp only
  rw [(lookupName_ok_iff distinct).mpr member]
  rfl

/-! ## Trees -/

/-- An ordinary name of a file. -/
structure IsName (c : List Byte) : Prop extends IsComponent c where
  notDot : c ≠ dotName
  notDotDot : c ≠ dotName ++ dotName
  short : c.length < 256

/-- The inode that a directory gives an ordinary name. -/
def Namespace.child (ns : Namespace) (d : Nat) (name : List Byte) : Option Nat :=
  if name = dotName ∨ name = dotName ++ dotName then none else (ns.lookup d name).toOption

/-- The entries of a directory. -/
structure IsDirectory (d : Nat) (entries : List DirEntry) : Prop where
  distinct : (entries.map DirEntry.name).Nodup
  dot : ⟨dotName, d⟩ ∈ entries
  dotDot : dotName ++ dotName ∈ entries.map DirEntry.name

/-- The ordinary names make a tree, and the inode ids are used one after the other. -/
structure Namespace.Tree (ns : Namespace) : Prop where
  rooted : NameGraph.Rooted ns.Live 0 ns.child
  root : ∃ entries, ns.nodes 0 = some (.directory entries)
  directories : ∀ {d entries}, ns.nodes d = some (.directory entries) → IsDirectory d entries
  below : ∀ {i}, ns.Live i → i < ns.next
  small : ns.next ≤ 2 ^ 64

theorem Namespace.child_of_name {c : List Byte} (name : IsName c) (d : Nat) :
    ns.child d c = (ns.lookup d c).toOption := by
  rw [child, if_neg]
  intro dots
  rcases dots with dot | dotDot
  · exact name.notDot dot
  · exact name.notDotDot dotDot

theorem Namespace.lookup_ok_iff {c : List Byte} (name : IsName c) :
    ns.lookup d c = .ok i ↔ ns.child d c = some i := by
  rw [child_of_name name]
  cases ns.lookup d c with
  | error code =>
    refine ⟨?_, ?_⟩
    · intro no
      cases no
    · intro no
      cases no
  | ok j =>
    refine ⟨?_, ?_⟩
    · intro same
      exact congrArg some (Except.ok.inj same)
    · intro same
      exact congrArg Except.ok (Option.some_inj.mp same)

theorem Namespace.foldlM_lookup_ok_iff {p : List (List Byte)} (names : ∀ c ∈ p, IsName c) :
    p.foldlM ns.lookup d = .ok i ↔ NameGraph.walk ns.child d p = some i := by
  induction p generalizing d with
  | nil =>
    refine ⟨?_, ?_⟩
    · intro same
      exact congrArg some (Except.ok.inj same)
    · intro same
      exact congrArg Except.ok (Option.some_inj.mp same)
  | cons c p ih =>
    rw [List.forall_mem_cons] at names
    rw [List.foldlM_cons, NameGraph.walk]
    cases looked : ns.lookup d c with
    | error code =>
      have none : ns.child d c = none := by
        rw [child_of_name names.1, looked]
        rfl
      rw [none, Option.bind_none]
      refine ⟨?_, ?_⟩
      · intro no
        cases no
      · intro no
        cases no
    | ok j =>
      rw [(lookup_ok_iff names.1).mp looked, Option.bind_some]
      exact ih names.2

theorem Namespace.resolve_ok_iff {p : List (List Byte)} (names : ∀ c ∈ p, IsName c) :
    ns.resolve p = .ok i ↔ NameGraph.walk ns.child 0 p = some i :=
  foldlM_lookup_ok_iff names

theorem Namespace.resolve_concat (p : List (List Byte)) (c : List Byte) :
    ns.resolve (p ++ [c]) = ns.resolve p >>= fun d => ns.lookup d c := by
  rw [resolve, List.foldlM_append]
  refine congrArg _ (funext fun d => ?_)
  rw [List.foldlM_cons]
  exact bind_pure _

theorem Namespace.Tree.live_of_resolve (tree : ns.Tree) {p : List (List Byte)}
    (names : ∀ c ∈ p, IsName c) (resolved : ns.resolve p = .ok i) : ns.Live i :=
  tree.rooted.walk_live ((Namespace.resolve_ok_iff names).mp resolved)

/-! ## Resolving paths -/

theorem Represents.resolve (represents : Represents db ns) (tree : ns.Tree)
    {p : List (List Byte)} (nonempty : p ≠ []) (names : ∀ c ∈ p, IsName c) {fuel : Nat}
    (enough : (pathBytes p).length < fuel) :
    mtlResolveInode db fuel (pathBytes p) = some (ns.resolve p) := by
  induction p using List.reverseRecOn generalizing fuel with
  | nil => exact absurd rfl nonempty
  | append_singleton p c ih =>
    have name := names c (List.mem_append_right _ (List.mem_singleton_self c))
    have earlier : ∀ c' ∈ p, IsName c' := fun c' member => names c' (List.mem_append_left _ member)
    have components : ∀ c' ∈ p, IsComponent c' := fun c' member => (earlier c' member).toIsComponent
    have base : basename (pathBytes (p ++ [c])) = c := basename_pathBytes name.toIsComponent
    have notRoot : c ≠ [slash] := by
      intro root
      exact name.whole (by rw [root]; exact List.mem_cons_self)
    have last : ∀ result, ns.resolve p = result →
        resolveBase db (pathBytes (p ++ [c])) result = some (result >>= fun d => ns.lookup d c) := by
      intro result resolved
      cases result with
      | error code => rfl
      | ok d =>
        rw [resolveBase, base, if_neg notRoot]
        exact represents.lookup (tree.live_of_resolve earlier resolved) c
    cases fuel with
    | zero => cases enough
    | succ fuel =>
      rw [mtlResolveInode_succ, dirname_pathBytes components name.toIsComponent,
        Namespace.resolve_concat]
      by_cases first : p = []
      · rw [if_pos first, if_pos rfl, Option.bind_some]
        refine (last (.ok 0) ?_).trans ?_
        · rw [first]
          rfl
        · rw [first]
          rfl
      · have shorter : (pathBytes p).length < fuel := by
          rw [pathBytes_concat, List.length_append, List.length_cons] at enough
          omega
        rw [if_neg first, if_neg (pathBytes_ne_slash components), ih first earlier shorter,
          Option.bind_some]
        exact last _ rfl

theorem Represents.resolveParent (represents : Represents db ns) (tree : ns.Tree)
    {p : List (List Byte)} {c : List Byte} (names : ∀ c' ∈ p ++ [c], IsName c') :
    mtlResolveParentDirInode db (pathBytes (p ++ [c])) = some (ns.resolve p) := by
  have name := names c (List.mem_append_right _ (List.mem_singleton_self c))
  have earlier : ∀ c' ∈ p, IsName c' := fun c' member => names c' (List.mem_append_left _ member)
  have components : ∀ c' ∈ p, IsComponent c' := fun c' member => (earlier c' member).toIsComponent
  rw [mtlResolveParentDirInode, dirname_pathBytes components name.toIsComponent]
  by_cases first : p = []
  · rw [if_pos first, if_pos rfl, first]
    rfl
  · have enough : (pathBytes p).length < (pathBytes (p ++ [c])).length + 1 := by
      rw [pathBytes_concat, List.length_append]
      omega
    rw [if_neg first, if_neg (pathBytes_ne_slash components),
      represents.resolve tree first earlier enough]

/-! ## The operations -/

/-- The transaction ends as the operation on the namespace. -/
inductive EndsAs : TxnEnd → Except MtlCode Namespace → Prop where
  | committed {db : Db} {ns : Namespace} (represents : Represents db ns) :
      EndsAs (.committed db) (.ok ns)
  | aborted (code : MtlCode) : EndsAs (.aborted code) (.error code)

/-- An inode is made as in the namespace. -/
inductive Makes : Except MtlCode (Nat × Db) → Except MtlCode Namespace → Prop where
  | ok {inodeId : Nat} {db : Db} {ns : Namespace} (represents : Represents db ns) :
      Makes (.ok (inodeId, db)) (.ok ns)
  | error (code : MtlCode) : Makes (.error code) (.error code)

theorem Namespace.set_set (contents contents' : Option Contents) :
    (ns.set i contents).set i contents' = ns.set i contents' := by
  rw [set, set, set, Function.update_idem]

theorem Represents.createFile (represents : Represents db ns) (live : ns.Live d)
    (room : ns.next < 2 ^ 64) (short : filename.length < 256) (mode : Nat) (now : Int) :
    ∃ result, mtlCreateFileInDirectory db d filename mode now = some result ∧
      Makes result (ns.make d filename .file) := by
  have counted := represents.nextInode
  rcases handed : mtlNextInodeId db with ⟨inodeId, db₁⟩
  rw [handed] at counted
  rcases counted with ⟨rfl, represents₁⟩
  rcases represents₁.append live short room with ⟨result, appended, same⟩
  simp only [mtlCreateFileInDirectory, handed, appended, Option.bind_eq_bind, Option.bind_some,
    Namespace.make]
  generalize ({ ns with next := ns.next + 1 } : Namespace).append d filename ns.next = made at same
  cases same with
  | error code => exact ⟨_, rfl, .error code⟩
  | ok represents₂ => exact ⟨_, rfl, .ok (represents₂.put_file rfl)⟩

theorem Represents.createDirectory (represents : Represents db ns) (live : ns.Live d)
    (small : d < 2 ^ 64) (room : ns.next < 2 ^ 64) (short : filename.length < 256) (mode : Nat)
    (now : Int) :
    ∃ result, mtlCreateDirectoryInDirectory db d filename mode now = some result ∧
      Makes result (ns.make d filename (.directory (Namespace.newEntries ns.next d))) := by
  have counted := represents.nextInode
  rcases handed : mtlNextInodeId db with ⟨inodeId, db₁⟩
  rw [handed] at counted
  rcases counted with ⟨rfl, represents₁⟩
  rcases represents₁.append live short room with ⟨result, appended, same⟩
  simp only [mtlCreateDirectoryInDirectory, handed, appended, Option.bind_eq_bind, Option.bind_some,
    Namespace.make]
  generalize ({ ns with next := ns.next + 1 } : Namespace).append d filename ns.next = made at same
  cases same with
  | error code => exact ⟨_, rfl, .error code⟩
  | @ok db₂ ns₂ represents₂ =>
    -- the new directory gets its entries one after the other
    have empty : DirectoryData ⟨.directory, 0, 0, 0, now, now, now, mode ||| sIfdir⟩ [] [] :=
      ⟨rfl, rfl, .nil, fun e member => by cases member⟩
    have represents₃ := represents₂.put_directory (d := ns.next) empty
    rcases represents₃.append_absent (Namespace.set_nodes_self _) List.not_mem_nil
      (show dotName.length < 256 by decide) room with ⟨db₄, dotted, represents₄⟩
    rw [Namespace.set_set, List.nil_append] at represents₄
    rcases represents₄.append_absent (Namespace.set_nodes_self _)
      (show dotName ++ dotName ∉ [dotName] by decide) (by decide) small with
      ⟨db₅, dottedTwice, represents₅⟩
    rw [Namespace.set_set] at represents₅
    simp only [dotted, dottedTwice, Option.bind_some]
    exact ⟨_, rfl, .ok represents₅⟩

variable {p q : List (List Byte)} {toFilename : List Byte}

/-- A name that is found is an entry of a directory. -/
theorem Namespace.entry_of_child (found : ns.child d filename = some i) :
    ∃ entries, ns.nodes d = some (.directory entries) ∧ ⟨filename, i⟩ ∈ entries := by
  rw [child] at found
  split at found
  · cases found
  rw [lookup] at found
  split at found
  · rename_i entries node
    refine ⟨entries, node, ?_⟩
    rw [lookupName] at found
    split at found
    · rename_i e first
      have named := DirEntry.isNamed_iff.mp (List.find?_some first)
      have member := List.mem_of_find?_eq_some first
      rw [← named, ← Option.some_inj.mp found]
      exact member
    · cases found
  · cases found

theorem Namespace.live_set_some {j : Nat} (contents : Contents) (live : ns.Live j) :
    (ns.set i (some contents)).Live j := by
  by_cases same : j = i
  · subst same
    rw [Live, set_nodes_self]
    exact Option.some_ne_none contents
  · rw [Live, set_nodes_of_ne same]
    exact live

theorem Represents.removeDirectory (represents : Represents db ns) (live : ns.Live i) :
    ∃ result, mtlRemoveDirectory db i = some result ∧ Matches result (ns.removeDirectory i) := by
  unfold Namespace.removeDirectory
  cases node : ns.nodes i with
  | none => exact absurd node live
  | some contents =>
    cases contents with
    | file =>
      rcases represents.file node with ⟨inode, loaded, file⟩
      refine ⟨.error .errorNotdirectory, ?_, .error _⟩
      simp only [mtlRemoveDirectory, loaded, Option.bind_eq_bind, Option.bind_some, file,
        ne_eq, reduceCtorEq, not_false_eq_true, if_true]
    | directory entries =>
      rcases represents.directory node with ⟨inode, data, loaded, dir⟩
      simp only [mtlRemoveDirectory, loaded, Option.bind_eq_bind, Option.bind_some, dir.directory,
        ne_eq, not_true_eq_false, if_false, dir.isEmptyDirectory_eq]
      by_cases empty : entries.all DirEntry.isDot = true
      · rw [if_pos empty, if_pos empty]
        exact ⟨_, rfl, .ok (represents.delete db.allocator)⟩
      · rw [if_neg empty, if_neg empty]
        exact ⟨_, rfl, .error _⟩

theorem Namespace.Tree.lt_of_live (tree : ns.Tree) (live : ns.Live i) : i < 2 ^ 64 :=
  Nat.lt_of_lt_of_le (tree.below live) tree.small

section Operations

variable (represents : Represents db ns) (tree : ns.Tree)
  (names : ∀ c ∈ p ++ [filename], IsName c)

include represents tree names

theorem Represents.mkdir (room : ns.next < 2 ^ 64) (mode : Nat) (now : Int) :
    ∃ ended, mtlMkdir db (pathBytes (p ++ [filename])) mode now = some ended ∧
      EndsAs ended (ns.mkdir p filename) := by
  have name := names filename (List.mem_append_right _ (List.mem_singleton_self filename))
  have earlier : ∀ c ∈ p, IsName c := fun c member => names c (List.mem_append_left _ member)
  rw [mtlMkdir, represents.resolveParent tree names, basename_pathBytes name.toIsComponent,
    Option.bind_eq_bind, Option.bind_some, Namespace.mkdir]
  cases resolved : ns.resolve p with
  | error code => exact ⟨_, rfl, .aborted code⟩
  | ok d =>
    have live := tree.live_of_resolve earlier resolved
    rcases represents.createDirectory live (tree.lt_of_live live) room name.short mode now with
      ⟨result, created, same⟩
    change ∃ ended, _ ∧ EndsAs ended (ns.make d filename _)
    dsimp only
    rw [created, Option.bind_eq_bind, Option.bind_some]
    revert same
    generalize ns.make d filename _ = made
    intro same
    cases same with
    | error code => exact ⟨_, rfl, .aborted code⟩
    | ok represents' => exact ⟨_, rfl, .committed represents'⟩

theorem Represents.create (room : ns.next < 2 ^ 64) (mode : Nat) (now : Int) :
    ∃ ended, createTxn db (pathBytes (p ++ [filename])) mode now = some ended ∧
      EndsAs ended (ns.create p filename) := by
  have name := names filename (List.mem_append_right _ (List.mem_singleton_self filename))
  have earlier : ∀ c ∈ p, IsName c := fun c member => names c (List.mem_append_left _ member)
  rw [createTxn, mtlCreate, represents.resolveParent tree names,
    basename_pathBytes name.toIsComponent, Option.bind_eq_bind, Option.bind_eq_bind,
    Option.bind_some, Namespace.create]
  cases resolved : ns.resolve p with
  | error code => exact ⟨_, rfl, .aborted code⟩
  | ok d =>
    have live := tree.live_of_resolve earlier resolved
    rcases represents.createFile live room name.short mode now with ⟨result, created, same⟩
    change ∃ ended, _ ∧ EndsAs ended (ns.make d filename _)
    dsimp only
    rw [created, Option.bind_some]
    revert same
    generalize ns.make d filename _ = made
    intro same
    cases same with
    | error code => exact ⟨_, rfl, .aborted code⟩
    | ok represents' => exact ⟨_, rfl, .committed represents'⟩

/-! The other operations are given a name that exists. -/

variable (resolved : ns.resolve p = .ok d) (found : ns.child d filename = some i)

include resolved found

theorem Represents.rmdir (u : Uninitialised) :
    ∃ ended, mtlRmdir u db (pathBytes (p ++ [filename])) = some ended ∧
      EndsAs ended (ns.rmdir p filename) := by
  have name := names filename (List.mem_append_right _ (List.mem_singleton_self filename))
  rcases Namespace.entry_of_child found with ⟨entries, node, member⟩
  rcases represents.remove u node (tree.directories node).distinct member with
    ⟨db', removed, removed', represents'⟩
  have live := @Namespace.live_set_some ns d _
    (.directory (withoutName entries filename)) (tree.rooted.closed found).2
  rcases represents'.removeDirectory live with ⟨result, deleted, same⟩
  rw [Namespace.rmdir, resolved]
  change ∃ ended, _ ∧ EndsAs ended (ns.remove d filename >>= _)
  rw [removed']
  change ∃ ended, _ ∧ EndsAs ended (Namespace.removeDirectory _ i)
  rw [mtlRmdir, represents.resolveParent tree names, resolved,
    basename_pathBytes name.toIsComponent, Option.bind_eq_bind, Option.bind_some]
  dsimp only
  rw [removed, Option.bind_eq_bind, Option.bind_some]
  dsimp only
  rw [Option.getD_some, deleted, Option.bind_eq_bind, Option.bind_some]
  revert same
  generalize Namespace.removeDirectory _ i = rest
  intro same
  cases same with
  | error code => exact ⟨_, rfl, .aborted code⟩
  | ok represents'' => exact ⟨_, rfl, .committed represents''⟩

theorem Represents.unlink (u : Uninitialised) (file : ns.nodes i = some .file) :
    ∃ ended, mtlUnlink u db (pathBytes (p ++ [filename])) = some ended ∧
      EndsAs ended (ns.unlink p filename) := by
  have name := names filename (List.mem_append_right _ (List.mem_singleton_self filename))
  rcases Namespace.entry_of_child found with ⟨entries, node, member⟩
  rcases represents.remove u node (tree.directories node).distinct member with
    ⟨db', removed, removed', represents'⟩
  have apart : i ≠ d := by
    intro same
    rw [same, node] at file
    cases file
  have file' : (ns.set d (some (.directory (withoutName entries filename)))).nodes i = some .file := by
    rw [Namespace.set_nodes_of_ne apart, file]
  rcases represents'.file file' with ⟨inode, loaded, -⟩
  rw [Namespace.unlink, resolved]
  change ∃ ended, _ ∧ EndsAs ended (ns.remove d filename >>= _)
  rw [removed']
  refine ⟨_, ?_, .committed (represents'.delete db'.allocator)⟩
  rw [mtlUnlink, represents.resolveParent tree names, resolved,
    basename_pathBytes name.toIsComponent, Option.bind_eq_bind, Option.bind_some]
  simp only [Except.toOption, Option.getD_some, removed, Option.bind_some, mtlLoadFile, loaded,
    Option.bind_eq_bind, List.length_nil, Nat.zero_div, extentsOfBytes, freeExtents]

theorem Represents.rename (u : Uninitialised) (names' : ∀ c ∈ q ++ [toFilename], IsName c) :
    ∃ ended, mtlRename u db (pathBytes (p ++ [filename])) (pathBytes (q ++ [toFilename])) =
        some ended ∧ EndsAs ended (ns.rename p filename q toFilename) := by
  have name := names filename (List.mem_append_right _ (List.mem_singleton_self filename))
  have name' := names' toFilename (List.mem_append_right _ (List.mem_singleton_self toFilename))
  have earlier' : ∀ c ∈ q, IsName c := fun c member => names' c (List.mem_append_left _ member)
  rw [Namespace.rename, resolved]
  change ∃ ended, _ ∧ EndsAs ended (ns.resolve q >>= fun e => ns.remove d filename >>= _)
  rw [mtlRename, represents.resolveParent tree names, represents.resolveParent tree names',
    basename_pathBytes name.toIsComponent, basename_pathBytes name'.toIsComponent, resolved,
    Option.bind_eq_bind, Option.bind_some]
  dsimp only
  rw [Option.bind_eq_bind, Option.bind_some]
  cases resolved' : ns.resolve q with
  | error code => exact ⟨_, rfl, .aborted code⟩
  | ok e =>
    rcases Namespace.entry_of_child found with ⟨entries, node, member⟩
    rcases represents.remove u node (tree.directories node).distinct member with
      ⟨db', removed, removed', represents'⟩
    have live := @Namespace.live_set_some ns d _
      (.directory (withoutName entries filename)) (tree.live_of_resolve earlier' resolved')
    rcases represents'.append live name'.short (tree.lt_of_live (tree.rooted.closed found).2) with
      ⟨result, appended, same⟩
    change ∃ ended, _ ∧ EndsAs ended (ns.remove d filename >>= _)
    rw [removed']
    change ∃ ended, _ ∧ EndsAs ended (Namespace.append _ e toFilename i)
    dsimp only
    rw [removed, Option.bind_eq_bind, Option.bind_some]
    dsimp only
    rw [Option.getD_some, appended, Option.bind_some]
    revert same
    generalize Namespace.append _ e toFilename i = rest
    intro same
    cases same with
    | error code => exact ⟨_, rfl, .aborted code⟩
    | ok represents'' => exact ⟨_, rfl, .committed represents''⟩

end Operations

end MetalFs
