import MetalFs.Filesystem.NamespaceTree
import MetalFs.Filesystem.FailedOps
import MetalFs.Lib.Interrupt

/-!
# Runs of the namespace operations

The calls that reach the store through the kernel have absolute, normalised paths, and it is known of
the sources of `rmdir`, `unlink` and `rename` that they exist (`PathOp.Admitted`).  Every such call
returns, ends as the operation on the represented namespace does, and leaves a tree
(`Represents.txn`, `Namespace.Tree.apply`, `step_holds`).  What a tree means for the databases is
said in terms of the entries that can be read from them:

* `run_soundNamespace`: every inode in use has exactly one name;
* `run_parentLinks`: the `..` entries are right as long as no directory gets another parent.
-/

namespace MetalFs

open NameGraph

/-! ## Calls -/

/-- An absolute normalised path of at least one component. -/
structure Path where
  parents : List (List Byte)
  name : List Byte
  isName : ∀ c ∈ parents ++ [name], IsName c

/-- The components of the path. -/
def Path.names (f : Path) : List (List Byte) := f.parents ++ [f.name]

/-- The path as it is written. -/
def Path.bytes (f : Path) : List Byte := pathBytes f.names

/-- A call of one of the operations on paths. -/
inductive PathOp where
  | mkdir (filename : Path) (mode : Nat) (now : Int)
  | create (filename : Path) (mode : Nat) (now : Int)
  | rmdir (filename : Path)
  | unlink (filename : Path)
  | rename (fromFilename toFilename : Path)

/-- The call with its paths as they are written. -/
def PathOp.call : PathOp → NamespaceOp
  | mkdir filename mode now => .mkdir filename.bytes mode now
  | create filename mode now => .create filename.bytes mode now
  | rmdir filename => .rmdir filename.bytes
  | unlink filename => .unlink filename.bytes
  | rename fromFilename toFilename => .rename fromFilename.bytes toFilename.bytes

/-- The paths that are given to a call. -/
def PathOp.operands : PathOp → List Path
  | mkdir filename _ _ => [filename]
  | create filename _ _ => [filename]
  | rmdir filename => [filename]
  | unlink filename => [filename]
  | rename fromFilename toFilename => [fromFilename, toFilename]

/-- The store after a call. -/
def PathOp.step (env : Env) (call : Uninitialised × PathOp) : Option Env :=
  NamespaceOp.step env (call.1, call.2.call)

/-- What is known of a call when it is made: the id that a new inode gets is a `uint64_t`, a source
exists, `unlink` is given a file, and a directory is not moved to a place inside of it. -/
def PathOp.Admitted (db : Db) : PathOp → Prop
  | mkdir _ _ _ => (mtlNextInodeId db).1 < 2 ^ 64
  | create _ _ _ => (mtlNextInodeId db).1 < 2 ^ 64
  | rmdir filename => ∃ inode, mtlGetInode db filename.bytes = some (.ok inode)
  | unlink filename => ∃ inode, mtlGetInode db filename.bytes = some (.ok inode) ∧ inode.type = .file
  | rename fromFilename toFilename => ∃ inode,
    mtlGetInode db fromFilename.bytes = some (.ok inode) ∧
      (inode.type = .directory → ¬ fromFilename.names <+: toFilename.parents)

/-- What `mtl_get_inode` returns, if it succeeds. -/
def getInode (db : Db) (f : Path) : Option Inode := (mtlGetInode db f.bytes).bind Except.toOption

theorem getInode_eq_some_iff {db : Db} {f : Path} {inode : Inode} :
    getInode db f = some inode ↔ mtlGetInode db f.bytes = some (.ok inode) := by
  rw [getInode]
  cases mtlGetInode db f.bytes with
  | none =>
    refine iff_of_false ?_ ?_
    · intro no
      cases no
    · intro no
      cases no
  | some result =>
    cases result with
    | error code =>
      refine iff_of_false ?_ ?_
      · intro no
        cases no
      · intro no
        cases no
    | ok found =>
      refine ⟨?_, ?_⟩
      · intro same
        rw [Option.some_inj.mp same]
      · intro same
        rw [Except.ok.inj (Option.some_inj.mp same)]
        rfl

instance PathOp.decidableAdmitted (db : Db) : ∀ op : PathOp, Decidable (op.Admitted db)
  | mkdir _ _ _ => inferInstanceAs (Decidable ((mtlNextInodeId db).1 < 2 ^ 64))
  | create _ _ _ => inferInstanceAs (Decidable ((mtlNextInodeId db).1 < 2 ^ 64))
  | rmdir f => decidable_of_iff (getInode db f).isSome
    (Option.isSome_iff_exists.trans (exists_congr fun _ => getInode_eq_some_iff))
  | unlink f => decidable_of_iff (∃ inode ∈ getInode db f, inode.type = .file)
    (exists_congr fun _ => and_congr_left' getInode_eq_some_iff)
  | rename f t => decidable_of_iff
    (∃ inode ∈ getInode db f, inode.type = .directory → ¬ f.names <+: t.parents)
    (exists_congr fun _ => and_congr_left' getInode_eq_some_iff)

/-- The operation on a namespace. -/
def Namespace.apply (ns : Namespace) : PathOp → Except MtlCode Namespace
  | .mkdir filename _ _ => ns.mkdir filename.parents filename.name
  | .create filename _ _ => ns.create filename.parents filename.name
  | .rmdir filename => ns.rmdir filename.parents filename.name
  | .unlink filename => ns.unlink filename.parents filename.name
  | .rename fromFilename toFilename =>
    ns.rename fromFilename.parents fromFilename.name toFilename.parents toFilename.name

variable {db : Db} {ns ns' : Namespace} {f t : Path} {d e i j : Nat}

theorem Path.name_isName (f : Path) : IsName f.name :=
  f.isName f.name (List.mem_append_right _ (List.mem_singleton_self _))

theorem Path.parents_isName (f : Path) : ∀ c ∈ f.parents, IsName c :=
  fun c member => f.isName c (List.mem_append_left _ member)

theorem Path.names_isName (f : Path) : ∀ c ∈ f.names, IsName c := f.isName

theorem Path.names_ne_nil (f : Path) : f.names ≠ [] :=
  List.append_ne_nil_of_right_ne_nil _ (List.cons_ne_nil _ _)

/-! ## One call -/

/-- The inode of a path that exists, and the directory that names it. -/
structure Namespace.Found (ns : Namespace) (f : Path) (d i : Nat) : Prop where
  resolved : ns.resolve f.parents = .ok d
  child : ns.child d f.name = some i

theorem Namespace.Found.walk_parents (found : ns.Found f d i) :
    walk ns.child 0 f.parents = some d :=
  (Namespace.resolve_ok_iff f.parents_isName).mp found.resolved

theorem Namespace.Found.walk_names (found : ns.Found f d i) : walk ns.child 0 f.names = some i := by
  rw [Path.names, walk_concat, found.walk_parents, Option.bind_some, found.child]

theorem Namespace.found_of_resolve (resolved : ns.resolve f.names = .ok i) :
    ∃ d, ns.Found f d i := by
  have walked := (Namespace.resolve_ok_iff f.isName).mp resolved
  rw [walk_concat] at walked
  rcases Option.bind_eq_some_iff.mp walked with ⟨d, parents, child⟩
  exact ⟨d, (Namespace.resolve_ok_iff f.parents_isName).mpr parents, child⟩

theorem Stores.type_eq {inode : Inode} {data : List Byte}
    (stores : Stores (some (inode, data)) (ns.nodes i)) : ns.type i = some inode.type := by
  rw [Namespace.type]
  cases node : ns.nodes i with
  | none =>
    rw [node] at stores
    cases stores
  | some contents =>
    rw [node] at stores
    cases contents with
    | file =>
      rcases stores with ⟨inode', same, file⟩
      cases same
      rw [file]
      rfl
    | directory entries =>
      rcases stores with ⟨inode', data', same, dir⟩
      cases same
      rw [dir.directory]
      rfl

/-- A path of some components as it is written. -/
def pathOf (p : List (List Byte)) : List Byte := if p = [] then [slash] else pathBytes p

theorem Path.pathOf_names (f : Path) : pathOf f.names = f.bytes := if_neg f.names_ne_nil

/-- `mtl_open` follows the path. -/
theorem Represents.open_eq (represents : Represents db ns) (tree : ns.Tree) {p : List (List Byte)}
    (isName : ∀ c ∈ p, IsName c) : mtlOpen db (pathOf p) = some (ns.resolve p) := by
  rw [mtlOpen, pathOf]
  by_cases root : p = []
  · subst root
    rw [if_pos rfl, mtlResolveInode_succ, if_pos (by decide), Option.bind_some, resolveBase,
      if_pos (by decide)]
    rfl
  · rw [if_neg root]
    exact represents.resolve tree root isName (Nat.lt_succ_self _)

/-- What `mtl_get_inode` says of a path. -/
theorem Represents.getInode (represents : Represents db ns) (tree : ns.Tree) {p : List (List Byte)}
    (isName : ∀ c ∈ p, IsName c) :
    (∀ code, ns.resolve p = .error code → mtlGetInode db (pathOf p) = some (.error code)) ∧
    (∀ i, ns.resolve p = .ok i → ∃ inode,
      mtlGetInode db (pathOf p) = some (.ok inode) ∧ ns.type i = some inode.type) := by
  have opened := represents.open_eq tree isName
  rw [mtlOpen] at opened
  refine ⟨?_, ?_⟩
  · intro code failed
    rw [mtlGetInode, opened, failed]
    rfl
  · intro i resolved
    have live := tree.live_of_resolve isName resolved
    have stores := represents.stored i
    rw [mtlGetInode, opened, resolved]
    cases loaded : mtlLoadInode db i with
    | none =>
      rw [loaded] at stores
      cases node : ns.nodes i with
      | none => exact absurd node live
      | some contents =>
        rw [node] at stores
        cases contents with
        | file =>
          rcases stores with ⟨inode, no, -⟩
          cases no
        | directory entries =>
          rcases stores with ⟨inode, data, no, -⟩
          cases no
    | some found =>
      rcases found with ⟨inode, data⟩
      rw [loaded] at stores
      refine ⟨inode, ?_, stores.type_eq⟩
      simp only [Option.bind_eq_bind, Option.bind_some, loaded]

/-- A path that exists has a directory that names its inode. -/
theorem Represents.found (represents : Represents db ns) (tree : ns.Tree) {inode : Inode}
    (exists' : mtlGetInode db f.bytes = some (.ok inode)) :
    ∃ d i, ns.Found f d i ∧ ns.type i = some inode.type := by
  have given := represents.getInode tree f.names_isName
  rw [← Path.pathOf_names] at exists'
  cases resolved : ns.resolve f.names with
  | error code =>
    rw [given.1 code resolved] at exists'
    cases exists'
  | ok i =>
    rcases given.2 i resolved with ⟨inode', got, type⟩
    rw [got] at exists'
    cases exists'
    rcases Namespace.found_of_resolve resolved with ⟨d, found⟩
    exact ⟨d, i, found, type⟩

/-- What is known of a call, said of the namespace. -/
def PathOp.Allowed (ns : Namespace) : PathOp → Prop
  | mkdir _ _ _ => ns.next < 2 ^ 64
  | create _ _ _ => ns.next < 2 ^ 64
  | rmdir filename => ∃ d i, ns.Found filename d i
  | unlink filename => ∃ d i, ns.Found filename d i ∧ ns.type i = some .file
  | rename fromFilename toFilename => ∃ d i, ns.Found fromFilename d i ∧
    (ns.type i = some .directory → ¬ fromFilename.names <+: toFilename.parents)

theorem Represents.allowed (represents : Represents db ns) (tree : ns.Tree) {op : PathOp}
    (admitted : op.Admitted db) : op.Allowed ns := by
  cases op with
  | mkdir f mode now => exact represents.nextInode.1.symm.trans_lt admitted
  | create f mode now => exact represents.nextInode.1.symm.trans_lt admitted
  | rmdir f =>
    rcases admitted with ⟨inode, exists'⟩
    rcases represents.found tree exists' with ⟨d, i, found, -⟩
    exact ⟨d, i, found⟩
  | unlink f =>
    rcases admitted with ⟨inode, exists', file⟩
    rcases represents.found tree exists' with ⟨d, i, found, type⟩
    exact ⟨d, i, found, by rw [type, file]⟩
  | rename f t =>
    rcases admitted with ⟨inode, exists', outside⟩
    rcases represents.found tree exists' with ⟨d, i, found, type⟩
    refine ⟨d, i, found, ?_⟩
    intro directory
    exact outside (Option.some_inj.mp (type.symm.trans directory))

theorem Namespace.type_eq_file_iff : ns.type i = some .file ↔ ns.nodes i = some .file := by
  rw [type]
  cases ns.nodes i with
  | none =>
    refine ⟨?_, ?_⟩
    · intro no
      cases no
    · intro no
      cases no
  | some contents =>
    cases contents with
    | file => exact iff_of_true rfl rfl
    | directory entries =>
      refine ⟨?_, ?_⟩
      · intro no
        cases no
      · intro no
        cases no

/-- The transaction of a call ends as the operation on the namespace does. -/
theorem Represents.txn (represents : Represents db ns) (tree : ns.Tree) {op : PathOp}
    (allowed : op.Allowed ns) (u : Uninitialised) :
    ∃ ended, op.call.txn u db = some ended ∧ EndsAs ended (ns.apply op) := by
  cases op with
  | mkdir f mode now => exact represents.mkdir tree f.isName allowed mode now
  | create f mode now => exact represents.create tree f.isName allowed mode now
  | rmdir f =>
    rcases allowed with ⟨d, i, found⟩
    exact represents.rmdir tree f.isName found.resolved found.child u
  | unlink f =>
    rcases allowed with ⟨d, i, found, file⟩
    exact represents.unlink tree f.isName found.resolved found.child u
      (Namespace.type_eq_file_iff.mp file)
  | rename f t =>
    rcases allowed with ⟨d, i, found, -⟩
    exact represents.rename tree f.isName found.resolved found.child u t.isName

/-! ## What a call changes -/

/-- The inode that an operation is to make. -/
def PathOp.makes (next d : Nat) : PathOp → Option (Path × Contents)
  | mkdir filename _ _ => some (filename, .directory (Namespace.newEntries next d))
  | create filename _ _ => some (filename, .file)
  | rmdir _ => none
  | unlink _ => none
  | rename _ _ => none

/-- A successful operation makes a leaf, removes one or moves a subtree. -/
inductive Namespace.Change (ns : Namespace) : PathOp → Namespace → Prop where
  | made {op : PathOp} {f : Path} {d : Nat} {contents : Contents} {ns' : Namespace}
      (makes : op.makes ns.next d = some (f, contents)) (resolved : ns.resolve f.parents = .ok d)
      (room : ns.next < 2 ^ 64) (made : ns.make d f.name contents = .ok ns') : Change ns op ns'
  | removed {op : PathOp} {f : Path} {d i : Nat} {ns₁ : Namespace} (sort : op = .rmdir f ∨ op = .unlink f)
      (found : ns.Found f d i) (removed : ns.Removed d f.name ns₁) (leaf : ∀ c, ns.child i c = none) :
      Change ns op (ns₁.set i none)
  | moved {f t : Path} {d e i : Nat} {ns₁ ns' : Namespace} (found : ns.Found f d i)
      (resolved : ns.resolve t.parents = .ok e) (removed : ns.Removed d f.name ns₁)
      (outside : ∀ r, walk ns.child i r ≠ some e) (moved : ns₁.append e t.name i = .ok ns') :
      Change ns (.rename f t) ns'

/-- A file has no ordinary names. -/
theorem Namespace.leaf_of_file (file : ns.type i = some .file) (c : List Byte) :
    ns.child i c = none := by
  cases child : ns.child i c with
  | none => rfl
  | some j =>
    rw [type_of_child child] at file
    cases file

theorem Namespace.leaf_of_empty {entries : List DirEntry} (node : ns.nodes i = some (.directory entries))
    (empty : entries.all DirEntry.isDot = true) (c : List Byte) : ns.child i c = none := by
  rw [child_eq]
  by_cases dots : c = dotName ∨ c = dotName ++ dotName
  · rw [if_pos dots]
  · rw [if_neg dots, entry_directory node, (lookupName_error_iff.mpr ⟨rfl, ?_⟩)]
    · rfl
    · intro present
      rcases List.mem_map.mp present with ⟨e, member, named⟩
      have isDot := of_decide_eq_true (List.all_eq_true.mp empty e member)
      rw [named] at isDot
      exact dots isDot

/-- A directory that is moved is not moved to a place inside of it. -/
theorem Namespace.Found.outside (found : ns.Found f d i) (tree : ns.Tree)
    (resolved : ns.resolve t.parents = .ok e) (target : ns.type e = some .directory)
    (allowed : ns.type i = some .directory → ¬ f.names <+: t.parents) (r : List (List Byte)) :
    walk ns.child i r ≠ some e := by
  intro inside
  have below : walk ns.child 0 (f.names ++ r) = some e := by
    rw [walk_append, found.walk_names, Option.bind_some, inside]
  have same := tree.rooted.walk_inj ((resolve_ok_iff t.parents_isName).mp resolved) below
  have directory : ns.type i = some .directory := by
    cases r with
    | nil =>
      rw [Option.some_inj.mp inside]
      exact target
    | cons c r =>
      rw [walk] at inside
      rcases Option.bind_eq_some_iff.mp inside with ⟨j, child, -⟩
      exact type_of_child child
  exact allowed directory ⟨r, same.symm⟩

theorem Namespace.Tree.change (tree : ns.Tree) {op : PathOp} (allowed : op.Allowed ns)
    (applied : ns.apply op = .ok ns') : ns.Change op ns' := by
  cases op with
  | mkdir f mode now =>
    rcases Interrupt.bind_eq_ok applied with ⟨d, resolved, made⟩
    exact .made rfl resolved allowed made
  | create f mode now =>
    rcases Interrupt.bind_eq_ok applied with ⟨d, resolved, made⟩
    exact .made rfl resolved allowed made
  | rmdir f =>
    rcases allowed with ⟨d, i, found⟩
    rcases Interrupt.bind_eq_ok applied with ⟨d', resolved, rest⟩
    rcases Interrupt.bind_eq_ok rest with ⟨⟨i', ns₁⟩, taken, rest⟩
    rw [found.resolved] at resolved
    cases resolved
    rcases tree.of_remove f.name_isName taken with ⟨removed, child⟩
    rw [found.child] at child
    cases child
    dsimp only at rest
    rw [removeDirectory] at rest
    split at rest
    · rename_i entries node
      split at rest
      · rename_i empty
        cases rest
        refine .removed (Or.inl rfl) found removed ?_
        intro c
        have leaf := leaf_of_empty node empty c
        rw [removed.child] at leaf
        by_cases same : i = d ∧ c = f.name
        · -- the root of the tree would be below itself
          have loop := congrArg List.length
            (tree.rooted.walk_inj found.walk_names (same.1 ▸ found.walk_parents))
          rw [Path.names, List.length_append, List.length_singleton] at loop
          omega
        · rw [detach_other same] at leaf
          exact leaf
      · cases rest
    · cases rest
  | unlink f =>
    rcases allowed with ⟨d, i, found, file⟩
    rcases Interrupt.bind_eq_ok applied with ⟨d', resolved, rest⟩
    rcases Interrupt.bind_eq_ok rest with ⟨⟨i', ns₁⟩, taken, rest⟩
    rw [found.resolved] at resolved
    cases resolved
    rcases tree.of_remove f.name_isName taken with ⟨removed, child⟩
    rw [found.child] at child
    cases child
    cases rest
    exact .removed (Or.inr rfl) found removed (leaf_of_file file)
  | rename f t =>
    rcases allowed with ⟨d, i, found, outside⟩
    rcases Interrupt.bind_eq_ok applied with ⟨d', resolved, rest⟩
    rcases Interrupt.bind_eq_ok rest with ⟨e, target, rest⟩
    rcases Interrupt.bind_eq_ok rest with ⟨⟨i', ns₁⟩, taken, moved⟩
    rw [found.resolved] at resolved
    cases resolved
    rcases tree.of_remove f.name_isName taken with ⟨removed, child⟩
    rw [found.child] at child
    cases child
    rcases Tree.move_shape removed t.name_isName moved with ⟨-, -, -, -, directory, -⟩
    exact .moved found target removed (found.outside tree target directory outside) moved

theorem PathOp.isNew {op : PathOp} {contents : Contents}
    (makes : op.makes ns.next d = some (f, contents)) : Namespace.Tree.IsNew ns d contents := by
  cases op with
  | mkdir f mode now =>
    cases makes
    exact Or.inr rfl
  | create f mode now =>
    cases makes
    exact Or.inl rfl
  | rmdir f => cases makes
  | unlink f => cases makes
  | rename f t => cases makes

/-- An operation leaves a tree. -/
theorem Namespace.Change.tree {op : PathOp} (change : ns.Change op ns') (tree : ns.Tree) :
    ns'.Tree := by
  cases change with
  | made makes resolved room made =>
    exact tree.make (PathOp.isNew makes) room (Path.name_isName _) made
  | removed sort found removed leaf => exact tree.removeLeaf removed found.child leaf
  | moved found resolved removed outside moved =>
    exact tree.move removed found.child (Path.name_isName _) moved outside

/-! ## Runs -/

/-- The namespace after an operation. -/
def Namespace.after (ns : Namespace) (op : PathOp) : Namespace := (ns.apply op).toOption.getD ns

/-- The store holds a tree, and no transaction is open. -/
structure Holds (env : Env) (ns : Namespace) : Prop where
  released : env.writing = false
  represents : Represents env.db ns
  tree : ns.Tree

variable {env : Env} {op : PathOp}

theorem Holds.allowed (holds : Holds env ns) (admitted : op.Admitted env.db) : op.Allowed ns :=
  holds.represents.allowed holds.tree admitted

/-- Every admitted call returns and does what the operation on the namespace does. -/
theorem Holds.step (holds : Holds env ns) (allowed : op.Allowed ns) (u : Uninitialised) :
    ∃ env', PathOp.step env (u, op) = some env' ∧ Holds env' (ns.after op) := by
  rcases env with ⟨db, writing⟩
  rcases holds with ⟨released, represents, tree⟩
  dsimp only at released represents
  subst released
  rcases represents.txn tree allowed u with ⟨ended, txn, ends⟩
  have change := fun ns' => @Namespace.Tree.change ns ns' tree op allowed
  rw [PathOp.step, NamespaceOp.step, Env.transact, if_neg Bool.false_ne_true]
  dsimp only
  rw [txn, Option.map_some, Namespace.after]
  generalize ns.apply op = result at ends change
  cases ends with
  | aborted code => exact ⟨_, rfl, rfl, represents, tree⟩
  | committed represents' => exact ⟨_, rfl, rfl, represents', (change _ rfl).tree tree⟩

/-- The namespace of a fresh store. -/
def Namespace.fresh : Namespace :=
  (⟨fun _ => none, 1⟩ : Namespace).set 0 (some (.directory (newEntries 0 0)))

theorem Represents.fresh {metadata : StorageMetadata} {now : Int}
    (initialised : mtlInitialize emptyDb metadata now = some db) : Represents db Namespace.fresh := by
  have empty : Represents emptyDb ⟨fun _ => none, 1⟩ := ⟨fun _ => rfl, rfl⟩
  have data : DirectoryData ⟨.directory, 0, 0, 0, now, now, now, 0o755 ||| sIfdir⟩ [] [] :=
    ⟨rfl, rfl, .nil, fun e member => by cases member⟩
  have root := empty.put_directory (d := 0) data
  rcases root.append_absent (Namespace.set_nodes_self _) List.not_mem_nil
    (show dotName.length < 256 by decide) (show 0 < 2 ^ 64 by decide) with ⟨db₁, dotted, represents₁⟩
  rw [Namespace.set_set, List.nil_append] at represents₁
  rcases represents₁.append_absent (Namespace.set_nodes_self _)
    (show dotName ++ dotName ∉ [dotName] by decide) (by decide) (show 0 < 2 ^ 64 by decide) with
    ⟨db₂, dottedTwice, represents₂⟩
  rw [Namespace.set_set] at represents₂
  have absent : mtlLoadInode emptyDb 0 = none := rfl
  simp only [mtlInitialize, mtlCreateRootDirectory, absent, dotted, dottedTwice,
    Option.bind_eq_bind, Option.bind_some, Except.toOption, Option.getD_some] at initialised
  cases initialised
  exact ⟨represents₂.stored, represents₂.next⟩

theorem Namespace.fresh_root : fresh.nodes 0 = some (.directory (newEntries 0 0)) := set_nodes_self _

theorem Namespace.fresh_other (other : i ≠ 0) : fresh.nodes i = none := set_nodes_of_ne other _

theorem Namespace.fresh_childless (d : Nat) (c : List Byte) : fresh.child d c = none := by
  by_cases root : d = 0
  · exact child_newEntries (root ▸ fresh_root) c
  · rw [child_eq, entry_of_not_directory]
    · exact ite_self none
    · intro entries no
      rw [fresh_other root] at no
      cases no

theorem Namespace.fresh_tree : fresh.Tree := by
  have alone : ∀ i, fresh.Live i → i = 0 := by
    intro i live
    by_contra other
    exact live (fresh_other other)
  have childless : ∀ {d c i}, fresh.child d c ≠ some i := by
    intro d c i edge
    rw [fresh_childless] at edge
    cases edge
  refine ⟨⟨⟨?_, ?_⟩, ?_, ?_, ?_⟩, ⟨_, fresh_root⟩, ?_, ?_, ?_⟩
  · intro d n i edge
    exact absurd edge childless
  · intro d n i d' n' edge
    exact absurd edge childless
  · rw [Live, fresh_root]
    exact Option.some_ne_none _
  · intro d n i edge
    exact absurd edge childless
  · intro i live
    exact ⟨[], by rw [alone i live]; rfl⟩
  · intro d entries stored
    by_cases root : d = 0
    · subst root
      rw [fresh_root] at stored
      cases stored
      exact newEntries_isDirectory 0 0
    · rw [fresh_other root] at stored
      cases stored
  · intro i live
    rw [alone i live]
    exact Nat.zero_lt_one
  · exact Nat.one_le_two_pow

theorem Holds.fresh {metadata : StorageMetadata} {now : Int}
    (initialised : mtlInitialize emptyDb metadata now = some db) :
    Holds ⟨db, false⟩ Namespace.fresh :=
  ⟨rfl, Represents.fresh initialised, Namespace.fresh_tree⟩

/-- The call is admitted where it is made. -/
def PathOp.AdmittedIn (env : Env) (call : Uninitialised × PathOp) : Prop := call.2.Admitted env.db

/-- Every run of admitted calls returns, and the store then holds what the operations leave of the
namespace. -/
theorem Holds.run {calls : List (Uninitialised × PathOp)} (holds : Holds env ns)
    (admitted : Runs.Steps PathOp.step PathOp.AdmittedIn env calls) :
    ∃ env', Runs.run PathOp.step env calls = some env' ∧
      Holds env' ((calls.map Prod.snd).foldl Namespace.after ns) := by
  induction calls generalizing env ns with
  | nil => exact ⟨env, rfl, holds⟩
  | cons call calls ih =>
    rcases admitted with ⟨first, rest⟩
    rcases holds.step (holds.allowed first) call.1 with ⟨env₁, returned, holds₁⟩
    rcases ih holds₁ (rest env₁ returned) with ⟨env', finished, final⟩
    exact ⟨env', by rw [Runs.run, returned]; exact finished, final⟩

/-! ## What can be read -/

/-- The entries that are stored for an inode. -/
def Db.entries (db : Db) (dirInodeId : Nat) : List DirEntry :=
  match mtlLoadInode db dirInodeId with
  | some (dirInode, dirData) =>
    if dirInode.type = .directory then
      directoryEntries dirData dirInode.length (dirInode.length + 1) none
    else []
  | none => []

/-- The entries other than `.` and `..`. -/
def Db.ordinaryEntries (db : Db) (dirInodeId : Nat) : List DirEntry :=
  (db.entries dirInodeId).filter fun e => !e.isDot

/-- An inode is stored. -/
def Db.Uses (db : Db) (inodeId : Nat) : Prop := (mtlLoadInode db inodeId).isSome

/-- The inode is a directory. -/
def Db.IsDirectory (db : Db) (inodeId : Nat) : Prop :=
  ∃ inode data, mtlLoadInode db inodeId = some (inode, data) ∧ inode.type = .directory

/-- A directory has an ordinary entry for an inode. -/
def Db.Names (db : Db) (dirInodeId inodeId : Nat) : Prop :=
  ∃ e ∈ db.ordinaryEntries dirInodeId, e.inodeId = inodeId

/-- No inode is leaked, shared or dangling. -/
structure Db.SoundNamespace (db : Db) : Prop where
  used_iff : ∀ inodeId, db.Uses inodeId ↔ Relation.ReflTransGen db.Names 0 inodeId
  named : ∀ inodeId, db.Uses inodeId → inodeId ≠ 0 →
    ∃! place : Nat × DirEntry, place.2 ∈ db.ordinaryEntries place.1 ∧ place.2.inodeId = inodeId
  distinct : ∀ dirInodeId, ((db.entries dirInodeId).map DirEntry.name).Nodup
  dot : ∀ dirInodeId, db.IsDirectory dirInodeId → ⟨dotName, dirInodeId⟩ ∈ db.entries dirInodeId
  next : ∀ inodeId, db.Uses inodeId → inodeId < (mtlNextInodeId db).1

/-- The `..` entry of every directory but the root is the directory that names it. -/
def Db.ParentLinks (db : Db) : Prop :=
  ∀ d, d ≠ 0 → db.IsDirectory d →
    ∃ parent, ⟨dotName ++ dotName, parent⟩ ∈ db.entries d ∧ ∀ d', db.Names d' d ↔ d' = parent

section Read

variable (represents : Represents db ns)

include represents

theorem Represents.entries_directory {entries : List DirEntry}
    (node : ns.nodes d = some (.directory entries)) : db.entries d = entries := by
  rcases represents.directory node with ⟨inode, data, loaded, dir⟩
  rw [Db.entries, loaded]
  dsimp only
  rw [if_pos dir.directory, dir.entries_eq]

theorem Represents.entries_other (other : ∀ entries, ns.nodes d ≠ some (.directory entries)) :
    db.entries d = [] := by
  have stores := represents.stored d
  rw [Db.entries]
  cases node : ns.nodes d with
  | none =>
    rw [node] at stores
    rw [show mtlLoadInode db d = none from stores]
  | some contents =>
    cases contents with
    | file =>
      rcases represents.file node with ⟨inode, loaded, file⟩
      rw [loaded]
      dsimp only
      rw [file, if_neg (fun no => by cases no)]
    | directory entries => exact absurd node (other entries)

theorem Represents.uses_iff : db.Uses i ↔ ns.Live i := by
  have stores := represents.stored i
  rw [Db.Uses, Namespace.Live]
  cases node : ns.nodes i with
  | none =>
    rw [node] at stores
    rw [show mtlLoadInode db i = none from stores]
    exact iff_of_false Bool.false_ne_true (not_not.mpr rfl)
  | some contents =>
    refine iff_of_true ?_ (Option.some_ne_none _)
    cases contents with
    | file =>
      rcases represents.file node with ⟨inode, loaded, -⟩
      rw [loaded]
      rfl
    | directory entries =>
      rcases represents.directory node with ⟨inode, data, loaded, -⟩
      rw [loaded]
      rfl

theorem Represents.isDirectory_iff : db.IsDirectory i ↔ ns.type i = some .directory := by
  have stores := represents.stored i
  refine ⟨?_, ?_⟩
  · intro directory
    rcases directory with ⟨inode, data, loaded, directory⟩
    rw [loaded] at stores
    rw [stores.type_eq, directory]
  · intro directory
    rcases Namespace.type_eq_directory_iff.mp directory with ⟨entries, node⟩
    rcases represents.directory node with ⟨inode, data, loaded, dir⟩
    exact ⟨inode, data, loaded, dir.directory⟩

/-- The entries that are read are those that a lookup finds. -/
theorem Represents.mem_entries_iff (tree : ns.Tree) {e : DirEntry} :
    e ∈ db.entries d ↔ ns.entry d e.name = some e.inodeId := by
  by_cases directory : ∃ entries, ns.nodes d = some (.directory entries)
  · rcases directory with ⟨entries, node⟩
    have found := @lookupName_ok_iff entries e.name e.inodeId (tree.directories node).distinct
    rw [represents.entries_directory node, Namespace.entry_directory node, ← found]
    cases lookupName entries e.name with
    | error code =>
      refine iff_of_false ?_ ?_
      · intro no
        cases no
      · intro no
        cases no
    | ok j => exact ⟨fun same => congrArg some (Except.ok.inj same),
        fun same => congrArg Except.ok (Option.some_inj.mp same)⟩
  · rw [not_exists] at directory
    rw [represents.entries_other directory, Namespace.entry_of_not_directory directory]
    refine iff_of_false List.not_mem_nil ?_
    intro no
    cases no

theorem Represents.mem_ordinaryEntries_iff (tree : ns.Tree) {e : DirEntry} :
    e ∈ db.ordinaryEntries d ↔ ns.child d e.name = some e.inodeId := by
  rw [Db.ordinaryEntries, List.mem_filter, represents.mem_entries_iff tree, Namespace.child_eq]
  by_cases dots : e.name = dotName ∨ e.name = dotName ++ dotName
  · have isDot : e.isDot = true := decide_eq_true dots
    rw [if_pos dots, isDot]
    refine iff_of_false ?_ ?_
    · intro no
      exact Bool.false_ne_true no.2
    · intro no
      cases no
  · have isDot : e.isDot = false := decide_eq_false dots
    rw [if_neg dots, isDot]
    exact and_iff_left rfl

theorem Represents.names_iff (tree : ns.Tree) : db.Names d i ↔ ∃ c, ns.child d c = some i := by
  refine ⟨?_, ?_⟩
  · intro names
    rcases names with ⟨e, member, rfl⟩
    exact ⟨e.name, (represents.mem_ordinaryEntries_iff tree).mp member⟩
  · intro child
    rcases child with ⟨c, child⟩
    exact ⟨⟨c, i⟩, (represents.mem_ordinaryEntries_iff tree).mpr child, rfl⟩

/-- A tree has no inodes that are leaked, shared or dangling. -/
theorem Represents.soundNamespace (tree : ns.Tree) : db.SoundNamespace := by
  have names : db.Names = fun d i => ∃ c, ns.child d c = some i := by
    funext d i
    exact propext (represents.names_iff tree)
  refine ⟨?_, ?_, ?_, ?_, ?_⟩
  · intro i
    rw [represents.uses_iff, names, reached_iff_walk]
    refine ⟨tree.rooted.reached, ?_⟩
    intro path
    rcases path with ⟨p, walked⟩
    exact tree.rooted.walk_live walked
  · intro i used notRoot
    rcases tree.rooted.reached (represents.uses_iff.mp used) with ⟨p, walked⟩
    induction p using List.reverseRecOn with
    | nil => exact absurd (Option.some_inj.mp walked).symm notRoot
    | append_singleton p c _ =>
      rw [walk_concat] at walked
      rcases Option.bind_eq_some_iff.mp walked with ⟨d, -, child⟩
      refine ⟨(d, ⟨c, i⟩), ⟨(represents.mem_ordinaryEntries_iff tree).mpr child, rfl⟩, ?_⟩
      intro place
      rcases place with ⟨d', e⟩
      intro other
      rcases other with ⟨member, same⟩
      have child' := (represents.mem_ordinaryEntries_iff tree).mp member
      dsimp only at same child'
      rw [same] at child'
      rcases tree.rooted.unique child' child with ⟨rfl, rfl⟩
      rw [← same]
  · intro d
    by_cases directory : ∃ entries, ns.nodes d = some (.directory entries)
    · rcases directory with ⟨entries, node⟩
      rw [represents.entries_directory node]
      exact (tree.directories node).distinct
    · rw [not_exists] at directory
      rw [represents.entries_other directory]
      exact List.nodup_nil
  · intro d directory
    rcases Namespace.type_eq_directory_iff.mp (represents.isDirectory_iff.mp directory) with
      ⟨entries, node⟩
    rw [represents.entries_directory node]
    exact (tree.directories node).dot
  · intro i used
    rw [represents.nextInode.1]
    exact tree.below (represents.uses_iff.mp used)

end Read

/-- Every run of admitted calls from a fresh store returns, and no inode is leaked, shared or
dangling afterwards. -/
theorem run_soundNamespace {metadata : StorageMetadata} {now : Int} {db : Db}
    {calls : List (Uninitialised × PathOp)}
    (initialised : mtlInitialize emptyDb metadata now = some db)
    (admitted : Runs.Steps PathOp.step PathOp.AdmittedIn ⟨db, false⟩ calls) :
    ∃ env, Runs.run PathOp.step ⟨db, false⟩ calls = some env ∧ env.db.SoundNamespace := by
  rcases (Holds.fresh initialised).run admitted with ⟨env, finished, holds⟩
  exact ⟨env, finished, holds.represents.soundNamespace holds.tree⟩

instance PathOp.decidableAdmittedIn (env : Env) (call : Uninitialised × PathOp) :
    Decidable (PathOp.AdmittedIn env call) := PathOp.decidableAdmitted env.db call.2

theorem isName_singleton {l : List Byte} (visible : ∀ c ∈ l, c ≠ slash ∧ c ≠ byte 46) :
    ∀ name ∈ l.map ([·]), IsName name := by
  intro name member
  rcases List.mem_map.mp member with ⟨c, inside, rfl⟩
  rcases visible c inside with ⟨noSlash, noDot⟩
  refine ⟨⟨List.cons_ne_nil _ _, ?_⟩, ?_, ?_, ?_⟩
  · intro root
    exact noSlash (List.mem_singleton.mp root).symm
  · intro dot
    exact noDot (List.singleton_inj.mp dot)
  · intro dotDot
    cases congrArg List.length dotDot
  · exact show 1 < 256 by decide

/-- `/a`, `/b`, and what they are called inside of each other. -/
def dirA : Path := ⟨[], [byte 97], isName_singleton (l := [byte 97]) (by decide +kernel)⟩

@[inherit_doc dirA]
def dirB : Path := ⟨[], [byte 98], isName_singleton (l := [byte 98]) (by decide +kernel)⟩

@[inherit_doc dirA]
def bInA : Path := ⟨[[byte 97]], [byte 98], isName_singleton (l := [byte 97, byte 98]) (by decide +kernel)⟩

@[inherit_doc dirA]
def aInB : Path := ⟨[[byte 98]], [byte 97], isName_singleton (l := [byte 98, byte 97]) (by decide +kernel)⟩

/-- A file is made in a directory, moved out of it and removed, and so is the directory. -/
def tidyCalls : List (Uninitialised × PathOp) :=
  [.mkdir dirA 0 0, .create bInA 0 0, .rename bInA dirB, .rmdir dirA, .unlink dirB].map
    (garbage, ·)

theorem run_soundNamespace_tidy :
    Runs.Steps PathOp.step PathOp.AdmittedIn ⟨rootDb, false⟩ tidyCalls ∧
      ∃ env, Runs.run PathOp.step ⟨rootDb, false⟩ tidyCalls = some env ∧ env.db.SoundNamespace := by
  have initialised : mtlInitialize emptyDb ⟨8, 512⟩ 0 = some rootDb := (Option.some_get _).symm
  have admitted : Runs.Steps PathOp.step PathOp.AdmittedIn ⟨rootDb, false⟩ tidyCalls := by
    decide +kernel
  exact ⟨admitted, run_soundNamespace initialised admitted⟩

/-! ## Parent links -/

/-- The call succeeds. -/
def PathOp.Succeeds (db : Db) (call : Uninitialised × PathOp) : Prop :=
  ∃ db', call.2.call.txn call.1 db = some (.committed db')

/-- No directory gets another parent: `unlink` is given a file, and `rename` leaves a directory where
it is.  The id that a new inode gets is a `uint64_t`. -/
def PathOp.KeepsParents (db : Db) : PathOp → Prop
  | mkdir _ _ _ => (mtlNextInodeId db).1 < 2 ^ 64
  | create _ _ _ => (mtlNextInodeId db).1 < 2 ^ 64
  | rmdir _ => True
  | unlink filename => ∃ inode, mtlGetInode db filename.bytes = some (.ok inode) ∧ inode.type = .file
  | rename fromFilename toFilename => ∀ inode,
    mtlGetInode db fromFilename.bytes = some (.ok inode) → inode.type = .directory →
      toFilename.parents = fromFilename.parents

instance PathOp.decidableSucceeds (db : Db) (call : Uninitialised × PathOp) :
    Decidable (PathOp.Succeeds db call) := TxnEnd.decidableCommitted _

instance PathOp.decidableKeepsParents (db : Db) : ∀ op : PathOp, Decidable (op.KeepsParents db)
  | mkdir _ _ _ => inferInstanceAs (Decidable ((mtlNextInodeId db).1 < 2 ^ 64))
  | create _ _ _ => inferInstanceAs (Decidable ((mtlNextInodeId db).1 < 2 ^ 64))
  | rmdir _ => inferInstanceAs (Decidable True)
  | unlink f => decidable_of_iff (∃ inode ∈ getInode db f, inode.type = .file)
    (exists_congr fun _ => and_congr_left' getInode_eq_some_iff)
  | rename f t => decidable_of_iff
    (∀ inode ∈ getInode db f, inode.type = .directory → t.parents = f.parents)
    (forall_congr' fun _ => imp_congr_left getInode_eq_some_iff)

/-- Every directory with a name has the directory that names it as its parent. -/
def Namespace.Links (ns : Namespace) : Prop :=
  ∀ d c i, ns.child d c = some i → ns.type i = some .directory → ns.dotDot i = some d

theorem Represents.parentLinks (represents : Represents db ns) (tree : ns.Tree) (links : ns.Links) :
    db.ParentLinks := by
  intro d notRoot directory
  have type := represents.isDirectory_iff.mp directory
  have live : ns.Live d := by
    rw [Namespace.live_iff, type]
    exact Option.some_ne_none _
  rcases tree.rooted.reached live with ⟨p, walked⟩
  induction p using List.reverseRecOn with
  | nil => exact absurd (Option.some_inj.mp walked).symm notRoot
  | append_singleton p c _ =>
    rw [walk_concat] at walked
    rcases Option.bind_eq_some_iff.mp walked with ⟨parent, -, child⟩
    refine ⟨parent, (represents.mem_entries_iff tree).mpr (links _ _ _ child type), ?_⟩
    intro d'
    rw [represents.names_iff tree]
    refine ⟨?_, ?_⟩
    · intro other
      rcases other with ⟨c', child'⟩
      exact (tree.rooted.unique child' child).1
    · intro same
      exact ⟨c, by rw [same, child]⟩

/-- A directory that is renamed keeps its parent. -/
def PathOp.Stays (ns : Namespace) : PathOp → Prop
  | rename fromFilename toFilename => ∀ d i, ns.Found fromFilename d i →
    ns.type i = some .directory → toFilename.parents = fromFilename.parents
  | _ => True

/-- An operation that moves no directory to another parent leaves the links right. -/
theorem Namespace.Change.links (change : ns.Change op ns') (tree : ns.Tree) (stays : op.Stays ns)
    (links : ns.Links) : ns'.Links := by
  intro d' c j edge directory
  cases change with
  | made makes resolved room made =>
    rcases tree.make_shape (PathOp.isNew makes) (Path.name_isName _) made with
      ⟨child, type, -, others, new, -⟩
    rw [child] at edge
    rw [type] at directory
    rcases attach_eq_some edge with ⟨⟨rfl, -⟩, rfl⟩ | ⟨-, old⟩
    · rw [Function.update_self] at directory
      exact new (Option.some_inj.mp directory)
    · have different := tree.ne_next (tree.rooted.closed old).2
      rw [Function.update_of_ne different] at directory
      rw [others j different, links _ _ _ old directory]
  | @removed _ f d i ns₁ sort found removed leaf =>
    rcases Tree.removeLeaf_shape removed found.child leaf with ⟨child, type, others⟩
    rw [child] at edge
    rw [type] at directory
    rcases detach_eq_some edge with ⟨apart, old⟩
    have different : j ≠ i := by
      intro same
      rw [same] at old
      exact apart (tree.rooted.unique old found.child)
    rw [Function.update_of_ne different] at directory
    rw [others j different, links _ _ _ old directory]
  | moved found resolved removed outside moved =>
    rcases Tree.move_shape removed (Path.name_isName _) moved with ⟨child, type, -, dotDot, -, -⟩
    rw [child] at edge
    rw [type] at directory
    rw [dotDot]
    rcases attach_eq_some edge with ⟨⟨rfl, -⟩, rfl⟩ | ⟨-, edge⟩
    · have parents := found.resolved
      rw [← stays _ _ found directory, resolved] at parents
      rw [links _ _ _ found.child directory, Except.ok.inj parents]
    · exact links _ _ _ (detach_eq_some edge).2 directory

/-- What has been taken out of a directory was an entry of it. -/
theorem Represents.entry_of_removed (represents : Represents db ns) (live : ns.Live d)
    {u : Uninitialised} {filename : List Byte} {removedId : Option Nat} {db' : Db}
    (removed : mtlRemoveEntryFromDirectory u db d filename = some (removedId, .ok db')) :
    ∃ i, ns.entry d filename = some i := by
  cases node : ns.nodes d with
  | none => exact absurd node live
  | some contents =>
    cases contents with
    | file =>
      rcases represents.file node with ⟨inode, loaded, file⟩
      rw [mtlRemoveEntryFromDirectory_file loaded (by rw [file]; decide)] at removed
      cases removed
    | directory entries =>
      rcases represents.directory node with ⟨inode, data, loaded, dir⟩
      rw [Namespace.entry_directory node]
      cases looked : lookupName entries filename with
      | ok i => exact ⟨i, rfl⟩
      | error code =>
        have missing := dir.missing_iff.mpr (lookupName_error_iff.mp looked).2
        by_cases room : sizeofDirectoryEntryHead + filename.length ≤ inode.length
        · rw [mtlRemoveEntryFromDirectory_missing loaded dir.directory missing room] at removed
          cases removed
        · rw [mtlRemoveEntryFromDirectory_short loaded dir.directory (Nat.lt_of_not_le room)]
            at removed
          cases removed

theorem Represents.found_of_removed (represents : Represents db ns) (tree : ns.Tree)
    (parent : mtlResolveParentDirInode db f.bytes = some (.ok d)) {u : Uninitialised}
    {removedId : Option Nat} {db' : Db}
    (removed : mtlRemoveEntryFromDirectory u db d (basename f.bytes) = some (removedId, .ok db')) :
    ∃ i, ns.Found f d i := by
  rw [Path.bytes, Path.names, represents.resolveParent tree f.isName] at parent
  have resolved := Option.some_inj.mp parent
  have live := tree.live_of_resolve f.parents_isName resolved
  rw [Path.bytes, Path.names, basename_pathBytes f.name_isName.toIsComponent] at removed
  rcases represents.entry_of_removed live removed with ⟨i, entry⟩
  exact ⟨i, resolved, by rw [Namespace.child_of_isName f.name_isName, entry]⟩

/-- A call that succeeds had a source. -/
theorem Represents.allowed_of_succeeds (represents : Represents db ns) (tree : ns.Tree)
    {call : Uninitialised × PathOp} (succeeds : PathOp.Succeeds db call)
    (keeps : call.2.KeepsParents db) : call.2.Allowed ns ∧ call.2.Stays ns := by
  rcases call with ⟨u, op⟩
  rcases succeeds with ⟨db', txn⟩
  cases op with
  | mkdir f mode now => exact ⟨represents.nextInode.1.symm.trans_lt keeps, trivial⟩
  | create f mode now => exact ⟨represents.nextInode.1.symm.trans_lt keeps, trivial⟩
  | rmdir f =>
    simp only [PathOp.call, NamespaceOp.txn, mtlRmdir, Option.bind_eq_bind,
      Option.bind_eq_some_iff] at txn
    rcases txn with ⟨_ | d, parent, rest⟩
    · cases rest
    simp only [Option.bind_eq_some_iff] at rest
    rcases rest with ⟨⟨removedId, _ | removed⟩, taken, rest⟩
    · cases rest
    rcases represents.found_of_removed tree parent taken with ⟨i, found⟩
    exact ⟨⟨d, i, found⟩, trivial⟩
  | unlink f =>
    rcases keeps with ⟨inode, exists', file⟩
    rcases represents.found tree exists' with ⟨d, i, found, type⟩
    exact ⟨⟨d, i, found, by rw [type, file]⟩, trivial⟩
  | rename f t =>
    simp only [PathOp.call, NamespaceOp.txn, mtlRename, Option.bind_eq_bind,
      Option.bind_eq_some_iff] at txn
    rcases txn with ⟨_ | d, parent, rest⟩
    · cases rest
    simp only [Option.bind_eq_some_iff] at rest
    rcases rest with ⟨_ | e, -, rest⟩
    · cases rest
    simp only [Option.bind_eq_some_iff] at rest
    rcases rest with ⟨⟨removedId, _ | removed⟩, taken, rest⟩
    · cases rest
    rcases represents.found_of_removed tree parent taken with ⟨i, found⟩
    -- what `mtl_get_inode` says of the source is said of its inode
    have stays : ∀ d' i', ns.Found f d' i' → ns.type i' = some .directory → t.parents = f.parents := by
      intro d' i' found' directory
      have resolved := (Namespace.resolve_ok_iff f.isName).mpr found'.walk_names
      rcases (represents.getInode tree f.names_isName).2 i' resolved with ⟨inode, got, type⟩
      rw [Path.pathOf_names] at got
      exact keeps inode got (Option.some_inj.mp (type.symm.trans directory))
    refine ⟨⟨d, i, found, ?_⟩, stays⟩
    intro directory inside
    have shorter := inside.length_le
    rw [stays d i found directory, Path.names, List.length_append, List.length_singleton] at shorter
    omega

/-- The links of a fresh store. -/
theorem Namespace.fresh_links : fresh.Links := by
  intro d c i child
  rw [fresh_childless] at child
  cases child

/-- A call that moves no directory succeeds as it is meant to. -/
theorem Holds.step_links (holds : Holds env ns) (links : ns.Links)
    {call : Uninitialised × PathOp} (succeeds : PathOp.Succeeds env.db call)
    (keeps : call.2.KeepsParents env.db) :
    ∃ env', PathOp.step env call = some env' ∧ Holds env' (ns.after call.2) ∧
      (ns.after call.2).Links := by
  rcases holds.represents.allowed_of_succeeds holds.tree succeeds keeps with ⟨allowed, stays⟩
  rcases holds.step allowed call.1 with ⟨env', returned, holds'⟩
  refine ⟨env', returned, holds', ?_⟩
  have change := fun ns' => @Namespace.Tree.change ns ns' holds.tree call.2 allowed
  rw [Namespace.after]
  generalize ns.apply call.2 = result at change
  cases result with
  | error code => exact links
  | ok ns' => exact (change ns' rfl).links holds.tree stays links

/-- In every state that successful calls reach from a fresh store without moving a directory to
another parent, the `..` entry of every directory is the directory that names it. -/
theorem run_parentLinks {metadata : StorageMetadata} {now : Int} {db : Db} {env : Env}
    {calls : List (Uninitialised × PathOp)}
    (initialised : mtlInitialize emptyDb metadata now = some db)
    (keeps : Runs.Steps PathOp.step
      (fun env call => PathOp.Succeeds env.db call ∧ call.2.KeepsParents env.db) ⟨db, false⟩ calls)
    (finished : Runs.run PathOp.step ⟨db, false⟩ calls = some env) : env.db.ParentLinks := by
  have final : ∃ ns : Namespace, Holds env ns ∧ ns.Links := by
    refine Runs.inv_of_run (I := fun env => ∃ ns : Namespace, Holds env ns ∧ ns.Links) ?_
      ⟨_, Holds.fresh initialised, Namespace.fresh_links⟩ keeps finished
    intro env call env' before admitted returned
    rcases before with ⟨ns, holds, links⟩
    rcases holds.step_links links admitted.1 admitted.2 with ⟨env'', returned', holds', links'⟩
    rw [returned'] at returned
    cases returned
    exact ⟨_, holds', links'⟩
  rcases final with ⟨ns, holds, links⟩
  exact holds.represents.parentLinks holds.tree links

/-- Directories are made inside of each other, renamed and removed. -/
def stayingCalls : List (Uninitialised × PathOp) :=
  [.mkdir dirA 0 0, .mkdir bInA 0 0, .create dirB 0 0, .unlink dirB, .rename dirA dirB,
    .mkdir dirA 0 0, .rmdir dirA].map (garbage, ·)

theorem run_parentLinks_staying :
    Runs.Steps PathOp.step
        (fun env call => PathOp.Succeeds env.db call ∧ call.2.KeepsParents env.db) ⟨rootDb, false⟩
        stayingCalls ∧
      ∃ env, Runs.run PathOp.step ⟨rootDb, false⟩ stayingCalls = some env ∧ env.db.ParentLinks := by
  have initialised : mtlInitialize emptyDb ⟨8, 512⟩ 0 = some rootDb := (Option.some_get _).symm
  have keeps : Runs.Steps PathOp.step
      (fun env call => PathOp.Succeeds env.db call ∧ call.2.KeepsParents env.db) ⟨rootDb, false⟩
      stayingCalls := by
    decide +kernel
  have finished : Runs.run PathOp.step ⟨rootDb, false⟩ stayingCalls =
      some ((Runs.run PathOp.step ⟨rootDb, false⟩ stayingCalls).get (by decide +kernel)) :=
    (Option.some_get _).symm
  exact ⟨keeps, _, finished, run_parentLinks initialised keeps finished⟩

/-- `/a` is moved into `/b`. -/
def movingCalls : List (Uninitialised × PathOp) :=
  [.mkdir dirA 0 0, .mkdir dirB 0 0, .rename dirA aInB].map (garbage, ·)

/-- The calls succeed, and the directory has the root as its parent although `/b` names it. -/
theorem not_parentLinks_moved :
    Runs.Steps PathOp.step (fun env call => PathOp.Succeeds env.db call) ⟨rootDb, false⟩ movingCalls ∧
      ∃ env, Runs.run PathOp.step ⟨rootDb, false⟩ movingCalls = some env ∧
        env.db.entries 1 = [⟨dotName, 1⟩, ⟨dotName ++ dotName, 0⟩] ∧
        env.db.ordinaryEntries 2 = [⟨[byte 97], 1⟩] ∧ ¬ env.db.ParentLinks := by
  have succeeds : Runs.Steps PathOp.step (fun env call => PathOp.Succeeds env.db call)
      ⟨rootDb, false⟩ movingCalls := by
    decide +kernel
  have finished : Runs.run PathOp.step ⟨rootDb, false⟩ movingCalls =
      some ((Runs.run PathOp.step ⟨rootDb, false⟩ movingCalls).get (by decide +kernel)) :=
    (Option.some_get _).symm
  generalize same : (Runs.run PathOp.step ⟨rootDb, false⟩ movingCalls).get _ = env at finished
  have entries : env.db.entries 1 = [⟨dotName, 1⟩, ⟨dotName ++ dotName, 0⟩] := by
    rw [← same]
    decide +kernel
  have ordinary : env.db.ordinaryEntries 2 = [⟨[byte 97], 1⟩] := by
    rw [← same]
    decide +kernel
  have directory : (mtlLoadInode env.db 1).map (fun found => found.1.type) = some .directory := by
    rw [← same]
    decide +kernel
  refine ⟨succeeds, env, finished, entries, ordinary, ?_⟩
  intro links
  rcases Option.map_eq_some_iff.mp directory with ⟨⟨inode, data⟩, loaded, isDirectory⟩
  rcases links 1 (by decide) ⟨inode, data, loaded, isDirectory⟩ with ⟨parent, member, only⟩
  have root : parent = 0 := by
    rw [entries] at member
    rcases List.mem_cons.mp member with dot | rest
    · cases dot
    · cases List.mem_singleton.mp rest
      rfl
  have here := (only 2).mp ⟨⟨[byte 97], 1⟩, by rw [ordinary]; exact List.mem_singleton_self _, rfl⟩
  rw [root] at here
  cases here

end MetalFs
