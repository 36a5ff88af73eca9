import MetalFs.Filesystem.NamespaceRuns

/-!
# The tree of names

What the operations on paths are for, without inodes and entries: a `NameTree` has a node at some of
the paths, and an operation adds a node, removes one or moves all nodes below a path.

* `NameTree.find_frame`: only the nodes at and above a path say where it leads;
* `Namespace.find_tree`: a path leads to the same node in a namespace and in its tree;
* `Namespace.apply_tree`: an operation has the same result on both;
* `run_refines_nameTree`: so do whole runs of the calls.
-/

namespace MetalFs

open NameGraph

/-- What there is at a path. -/
structure Node where
  type : InodeType
  inodeId : Nat
deriving DecidableEq

/-- The nodes by their paths, and the next id. -/
@[ext] structure NameTree where
  node : List (List Byte) → Option Node
  next : Nat

namespace NameTree

/-- The node at the end of a path, or the code of its first bad component. -/
def findFrom (t : NameTree) (before : List (List Byte)) (node : Node) :
    List (List Byte) → Except MtlCode Node
  | [] => .ok node
  | c :: rest =>
    if node.type = .file then .error .errorNotdirectory
    else
      match t.node (before ++ [c]) with
      | none => .error .errorNoentry
      | some node => t.findFrom (before ++ [c]) node rest

@[inherit_doc findFrom]
def find (t : NameTree) (p : List (List Byte)) : Except MtlCode Node :=
  match t.node [] with
  | none => .error .errorNoentry
  | some root => t.findFrom [] root p

/-- The path leads to a directory. -/
def findDirectory (t : NameTree) (p : List (List Byte)) : Except MtlCode Node := do
  let node ← t.find p
  if node.type = .directory then .ok node else .error .errorNotdirectory

/-- A node more. -/
def add (t : NameTree) (f : Path) (type : InodeType) : NameTree :=
  ⟨Function.update t.node f.names (some ⟨type, t.next⟩), t.next + 1⟩

/-- A new node, if its path is free. -/
def make (t : NameTree) (f : Path) (type : InodeType) : Except MtlCode NameTree := do
  let _ ← t.findDirectory f.parents
  if (t.node f.names).isSome then .error .errorExists else .ok (t.add f type)

/-- A node less. -/
def remove (t : NameTree) (f : Path) : NameTree :=
  { t with node := Function.update t.node f.names none }

open Classical in
/-- A directory less, if there is nothing in it. -/
noncomputable def rmdir (t : NameTree) (f : Path) : Except MtlCode NameTree := do
  let node ← t.find f.names
  if node.type = .file then .error .errorNotdirectory
  else if ∃ c, t.node (f.names ++ [c]) ≠ none then .error .errorNotempty
  else .ok (t.remove f)

/-- A file less. -/
def unlink (t : NameTree) (f : Path) : Except MtlCode NameTree := do
  let _ ← t.find f.names
  .ok (t.remove f)

/-- The nodes at and below one path are now at and below another one. -/
def move (t : NameTree) (f g : Path) : NameTree :=
  { t with node := fun p =>
    if g.names <+: p then t.node (f.names ++ p.drop g.names.length)
    else if f.names <+: p then none
    else t.node p }

/-- Another path for a node. -/
def rename (t : NameTree) (f g : Path) : Except MtlCode NameTree := do
  let _ ← t.find f.names
  let _ ← t.findDirectory g.parents
  if g.names ≠ f.names ∧ (t.node g.names).isSome then .error .errorExists
  else .ok (t.move f g)

/-- The operation on the tree. -/
noncomputable def apply (t : NameTree) : PathOp → Except MtlCode NameTree
  | .mkdir f _ _ => t.make f .directory
  | .create f _ _ => t.make f .file
  | .rmdir f => t.rmdir f
  | .unlink f => t.unlink f
  | .rename f g => t.rename f g

/-- The tree after an operation. -/
noncomputable def after (t : NameTree) (op : PathOp) : NameTree := (t.apply op).toOption.getD t

/-- The code of an operation. -/
noncomputable def code (t : NameTree) (op : PathOp) : MtlCode :=
  match t.apply op with
  | .ok _ => .success
  | .error code => code

/-- The tree of a fresh store. -/
def fresh : NameTree := ⟨fun p => if p = [] then some ⟨.directory, 0⟩ else none, 1⟩

variable {t t' : NameTree} {p q : List (List Byte)}

/-! ## Frames -/

theorem findFrom_congr (same : ∀ x, x <+: p ++ q → t'.node x = t.node x) (node : Node) :
    t'.findFrom p node q = t.findFrom p node q := by
  induction q generalizing p node with
  | nil => rfl
  | cons c q ih =>
    have step : p ++ [c] ++ q = p ++ c :: q := by rw [List.append_assoc, List.singleton_append]
    rw [findFrom, findFrom, same (p ++ [c]) (step ▸ List.prefix_append _ _)]
    by_cases file : node.type = .file
    · rw [if_pos file, if_pos file]
    · rw [if_neg file, if_neg file]
      cases t.node (p ++ [c]) with
      | none => rfl
      | some node' => exact ih (by rw [step]; exact same) node'

/-- Only the nodes at and above a path say where it leads. -/
theorem find_congr (same : ∀ x, x <+: p → t'.node x = t.node x) : t'.find p = t.find p := by
  rw [find, find, same [] List.nil_prefix]
  cases t.node [] with
  | none => rfl
  | some root => exact findFrom_congr (p := []) same root

theorem node_add_self {f : Path} {type : InodeType} :
    (t.add f type).node f.names = some ⟨type, t.next⟩ := Function.update_self ..

theorem node_add {f : Path} {type : InodeType} (other : p ≠ f.names) :
    (t.add f type).node p = t.node p := Function.update_of_ne other ..

theorem make_eq_ok {f : Path} {type : InodeType} (made : t.make f type = .ok t') :
    t' = t.add f type := by
  rcases Interrupt.bind_eq_ok made with ⟨node, -, rest⟩
  split at rest
  · cases rest
  · exact (Except.ok.inj rest).symm

theorem node_remove_self {f : Path} : (t.remove f).node f.names = none := Function.update_self ..

theorem node_remove {f : Path} (other : p ≠ f.names) : (t.remove f).node p = t.node p :=
  Function.update_of_ne other ..

theorem node_move {f g : Path} (source : ¬ f.names <+: p) (target : ¬ g.names <+: p) :
    (t.move f g).node p = t.node p := by
  rw [move]
  dsimp only
  rw [if_neg target, if_neg source]

/-- The cases of removing a directory. -/
theorem rmdir_cases {f : Path} {node : Node} (found : t.find f.names = .ok node) :
    (node.type = .file → t.rmdir f = .error .errorNotdirectory) ∧
    (node.type = .directory → (∃ c, t.node (f.names ++ [c]) ≠ none) →
      t.rmdir f = .error .errorNotempty) ∧
    (node.type = .directory → (¬ ∃ c, t.node (f.names ++ [c]) ≠ none) →
      t.rmdir f = .ok (t.remove f)) := by
  have directory : node.type = .directory → ¬ node.type = .file := by
    intro directory file
    rw [directory] at file
    cases file
  rw [rmdir, found]
  refine ⟨?_, ?_, ?_⟩
  · intro is
    exact if_pos is
  · intro is some
    exact (if_neg (directory is)).trans (if_pos some)
  · intro is none
    exact (if_neg (directory is)).trans (if_neg none)

/-- An operation leaves the nodes that are not below its operands. -/
theorem node_frame {op : PathOp} (applied : t.apply op = .ok t')
    (off : ∀ f ∈ op.operands, ¬ f.names <+: p) : t'.node p = t.node p := by
  have other : ∀ f ∈ op.operands, p ≠ f.names := by
    intro f operand same
    exact off f operand (same ▸ List.prefix_rfl)
  cases op with
  | mkdir f mode now =>
    rw [make_eq_ok applied]
    exact node_add (other f List.mem_cons_self)
  | create f mode now =>
    rw [make_eq_ok applied]
    exact node_add (other f List.mem_cons_self)
  | rmdir f =>
    rcases Interrupt.bind_eq_ok applied with ⟨node, -, rest⟩
    split at rest
    · cases rest
    split at rest
    · cases rest
    cases rest
    exact node_remove (other f List.mem_cons_self)
  | unlink f =>
    rcases Interrupt.bind_eq_ok applied with ⟨node, -, rest⟩
    cases rest
    exact node_remove (other f List.mem_cons_self)
  | rename f g =>
    rcases Interrupt.bind_eq_ok applied with ⟨node, -, rest⟩
    rcases Interrupt.bind_eq_ok rest with ⟨node', -, rest⟩
    split at rest
    · cases rest
    cases rest
    exact node_move (off f List.mem_cons_self) (off g (List.mem_cons_of_mem _ List.mem_cons_self))

/-- Paths that are not below the operands of an operation lead where they led. -/
theorem find_frame {op : PathOp} (off : ∀ f ∈ op.operands, ¬ f.names <+: p) :
    (t.after op).find p = t.find p := by
  rw [after]
  cases applied : t.apply op with
  | error code => rfl
  | ok t' =>
    refine find_congr ?_
    intro x above
    refine node_frame applied ?_
    intro f operand below
    exact off f operand (below.trans above)

end NameTree

/-! ## The tree of a namespace -/

/-- The nodes that the ordinary names lead to. -/
def Namespace.tree (ns : Namespace) : NameTree :=
  ⟨fun p => (walk ns.child 0 p).bind fun i => (ns.type i).map (⟨·, i⟩), ns.next⟩

variable {ns ns' : Namespace} {d e i j : Nat} {f g : Path} {p q : List (List Byte)}
  {type : InodeType}

theorem Namespace.type_of_live (live : ns.Live i) :
    ∃ type, ns.type i = some type :=
  Option.ne_none_iff_exists'.mp (Namespace.live_iff.mp live)

theorem Namespace.tree_node (walked : walk ns.child 0 p = some i) (typed : ns.type i = some type) :
    ns.tree.node p = some ⟨type, i⟩ := by
  rw [tree]
  dsimp only
  rw [walked, Option.bind_some, typed, Option.map_some]

theorem Namespace.tree_node_none (lost : walk ns.child 0 p = none) : ns.tree.node p = none := by
  rw [tree]
  dsimp only
  rw [lost, Option.bind_none]

theorem Namespace.Tree.tree_node_isSome_iff (tree : ns.Tree) :
    (ns.tree.node p).isSome ↔ (walk ns.child 0 p).isSome := by
  cases walked : walk ns.child 0 p with
  | none =>
    rw [Namespace.tree_node_none walked]
    exact Iff.rfl
  | some i =>
    rcases Namespace.type_of_live (tree.rooted.walk_live walked) with ⟨type, typed⟩
    rw [Namespace.tree_node walked typed]
    rfl

/-- What a component is in an inode. -/
theorem Namespace.lookup_of_child {c : List Byte} (name : IsName c) :
    (ns.type d = some .file → ns.lookup d c = .error .errorNotdirectory) ∧
    (ns.type d = some .directory → ns.child d c = none → ns.lookup d c = .error .errorNoentry) ∧
    (ns.child d c = some i → ns.lookup d c = .ok i) := by
  refine ⟨?_, ?_, (lookup_ok_iff name).mpr⟩
  · intro file
    rw [lookup, type_eq_file_iff.mp file]
  · intro directory free
    rcases type_eq_directory_iff.mp directory with ⟨entries, node⟩
    rw [child_of_isName name, entry_directory node] at free
    rw [lookup, node]
    dsimp only
    cases looked : lookupName entries c with
    | error code => rw [(lookupName_error_iff.mp looked).1]
    | ok j =>
      rw [looked] at free
      cases free

theorem Namespace.Tree.findFrom_tree (tree : ns.Tree) (isName : ∀ c ∈ q, IsName c)
    (walked : walk ns.child 0 p = some i) (typed : ns.type i = some type) :
    (∀ code, q.foldlM ns.lookup i = .error code →
      ns.tree.findFrom p ⟨type, i⟩ q = .error code) ∧
    (∀ j type', q.foldlM ns.lookup i = .ok j → ns.type j = some type' →
      ns.tree.findFrom p ⟨type, i⟩ q = .ok ⟨type', j⟩) := by
  induction q generalizing p i type with
  | nil =>
    refine ⟨?_, ?_⟩
    · intro code no
      cases no
    · intro j type' same typed'
      cases same
      rw [typed] at typed'
      cases typed'
      rfl
  | cons c q ih =>
    rw [List.forall_mem_cons] at isName
    rcases @Namespace.lookup_of_child ns i i c isName.1 with ⟨inFile, missing, -⟩
    rw [List.foldlM_cons, NameTree.findFrom]
    dsimp only
    cases type with
    | file =>
      rw [inFile typed, if_pos rfl]
      refine ⟨?_, ?_⟩
      · intro code same
        cases same
        rfl
      · intro j type' no
        cases no
    | directory =>
      rw [if_neg (fun no => by cases no)]
      cases child : ns.child i c with
      | none =>
        have lost : walk ns.child 0 (p ++ [c]) = none := by
          rw [walk_concat, walked, Option.bind_some, child]
        rw [missing typed child, Namespace.tree_node_none lost]
        refine ⟨?_, ?_⟩
        · intro code same
          cases same
          rfl
        · intro j type' no
          cases no
      | some j =>
        have walked' : walk ns.child 0 (p ++ [c]) = some j := by
          rw [walk_concat, walked, Option.bind_some, child]
        rcases Namespace.type_of_live (tree.rooted.walk_live walked') with ⟨type', typed'⟩
        rw [(Namespace.lookup_of_child isName.1).2.2 child, Namespace.tree_node walked' typed']
        exact ih isName.2 walked' typed'

/-- A path leads to the same node in a namespace and in its tree. -/
theorem Namespace.Tree.find_tree (tree : ns.Tree) (isName : ∀ c ∈ p, IsName c) :
    (∀ code, ns.resolve p = .error code → ns.tree.find p = .error code) ∧
    (∀ i type, ns.resolve p = .ok i → ns.type i = some type → ns.tree.find p = .ok ⟨type, i⟩) := by
  have root : ns.type 0 = some .directory := Namespace.type_eq_directory_iff.mpr tree.root
  rw [NameTree.find, Namespace.tree_node rfl root]
  exact tree.findFrom_tree isName rfl root

/-! ## The operations -/

section Operations

variable {c : List Byte} {contents : Contents} {ns₁ : Namespace}

/-- The cases of appending an entry. -/
theorem Namespace.append_cases (name : IsName c) (i : Nat) :
    (ns.type d = some .file → ns.append d c i = .error .errorNotdirectory) ∧
    (∀ j, ns.child d c = some j → ns.append d c i = .error .errorExists) ∧
    (ns.type d = some .directory → ns.child d c = none → ∃ ns', ns.append d c i = .ok ns') := by
  refine ⟨?_, ?_, ?_⟩
  · intro file
    rw [append, type_eq_file_iff.mp file]
  · intro j child
    rcases entry_of_child child with ⟨entries, node, member⟩
    rw [append, node]
    exact if_pos (List.mem_map.mpr ⟨_, member, rfl⟩)
  · intro directory free
    rcases type_eq_directory_iff.mp directory with ⟨entries, node⟩
    have absent : c ∉ entries.map DirEntry.name := by
      rw [child_of_isName name, entry_directory node] at free
      cases looked : lookupName entries c with
      | error code => exact (lookupName_error_iff.mp looked).2
      | ok j =>
        rw [looked] at free
        cases free
    rw [append, node]
    exact ⟨_, if_neg absent⟩

/-- The cases of making an inode. -/
theorem Namespace.make_cases (name : IsName c) (contents : Contents) :
    (ns.type d = some .file → ns.make d c contents = .error .errorNotdirectory) ∧
    (∀ j, ns.child d c = some j → ns.make d c contents = .error .errorExists) ∧
    (ns.type d = some .directory → ns.child d c = none → ∃ ns', ns.make d c contents = .ok ns') := by
  rcases @append_cases { ns with next := ns.next + 1 } d c name ns.next with ⟨file, taken, free⟩
  refine ⟨?_, ?_, ?_⟩
  · intro isFile
    rw [make, file isFile]
    rfl
  · intro j child
    rw [make, taken j child]
    rfl
  · intro directory absent
    rcases free directory absent with ⟨ns', appended⟩
    exact ⟨_, by rw [make, appended]; rfl⟩

/-- The tree of the paths when every path leads where a function of the paths says. -/
theorem Namespace.tree_eq {t : NameTree} (node : ∀ p, ns.tree.node p = t.node p)
    (next : ns.next = t.next) : ns.tree = t :=
  NameTree.ext (funext node) next

variable (tree : ns.Tree)

include tree

/-- The tree of a namespace in which an inode is made. -/
theorem Namespace.Tree.tree_make (new : IsNew ns d contents) (resolved : ns.resolve f.parents = .ok d)
    (made : ns.make d f.name contents = .ok ns') :
    ns'.tree = ns.tree.add f contents.type := by
  rcases tree.make_shape new f.name_isName made with ⟨child, type, next, -, -, -, free⟩
  have here := (Namespace.resolve_ok_iff f.parents_isName).mp resolved
  refine Namespace.tree_eq ?_ next
  intro p
  have walked := walk_attach tree.rooted here free tree.fresh p
  rw [← child] at walked
  by_cases same : p = f.names
  · subst same
    rw [NameTree.node_add_self]
    refine Namespace.tree_node (walked.trans (if_pos rfl)) ?_
    rw [type]
    exact Function.update_self ..
  · rw [NameTree.node_add same, Namespace.tree, Namespace.tree]
    dsimp only
    rw [walked, if_neg (show ¬ p = f.parents ++ [f.name] from same)]
    cases old : walk ns.child 0 p with
    | none => rfl
    | some i =>
      rw [Option.bind_some, Option.bind_some, type,
        Function.update_of_ne (tree.ne_next (tree.rooted.walk_live old))]

/-- The tree of a namespace in which a leaf is removed. -/
theorem Namespace.Tree.tree_removeLeaf (found : ns.Found f d i) (removed : ns.Removed d f.name ns₁)
    (leaf : ∀ c, ns.child i c = none) : (ns₁.set i none).tree = ns.tree.remove f := by
  rcases removeLeaf_shape removed found.child leaf with ⟨child, type, -⟩
  refine Namespace.tree_eq ?_ removed.next
  intro p
  have walked := walk_detach tree.rooted.toNamed found.walk_parents found.child leaf p
  rw [← child] at walked
  by_cases same : p = f.names
  · subst same
    rw [Namespace.tree_node_none (walked.trans (if_pos rfl)), NameTree.node_remove_self]
  · rw [NameTree.node_remove same, Namespace.tree, Namespace.tree]
    dsimp only
    rw [walked, if_neg (show ¬ p = f.parents ++ [f.name] from same)]
    cases old : walk ns.child 0 p with
    | none => rfl
    | some j =>
      have different : j ≠ i := by
        intro this
        rw [this] at old
        exact same (tree.rooted.walk_inj old found.walk_names)
      rw [Option.bind_some, Option.bind_some, type, Function.update_of_ne different]

/-- The tree of a namespace in which a subtree is moved. -/
theorem Namespace.Tree.tree_move (found : ns.Found f d i) (removed : ns.Removed d f.name ns₁)
    (resolved : ns.resolve g.parents = .ok e) (outside : ∀ r, walk ns.child i r ≠ some e)
    (moved : ns₁.append e g.name i = .ok ns') : ns'.tree = ns.tree.move f g := by
  rcases move_shape removed g.name_isName moved with ⟨child, type, next, -, -, -⟩
  have there := (Namespace.resolve_ok_iff g.parents_isName).mp resolved
  refine Namespace.tree_eq ?_ next
  intro p
  have walked := walk_move (m := g.name) tree.rooted found.child outside found.walk_parents there p
  rw [← child] at walked
  rw [NameTree.move, Namespace.tree, Namespace.tree]
  dsimp only
  rw [walked, type, Path.names, Path.names]
  split_ifs
  · rfl
  · rfl
  · rfl

/-- Where the path of a directory leads. -/
theorem Namespace.Tree.findDirectory_tree (isName : ∀ c ∈ p, IsName c) :
    (∀ code, ns.resolve p = .error code → ns.tree.findDirectory p = .error code) ∧
    (∀ i, ns.resolve p = .ok i → ns.type i = some .file →
      ns.tree.findDirectory p = .error .errorNotdirectory) ∧
    (∀ i, ns.resolve p = .ok i → ns.type i = some .directory →
      ns.tree.findDirectory p = .ok ⟨.directory, i⟩) := by
  rcases tree.find_tree isName with ⟨failed, found⟩
  refine ⟨?_, ?_, ?_⟩
  · intro code resolved
    rw [NameTree.findDirectory, failed code resolved]
    rfl
  · intro i resolved file
    rw [NameTree.findDirectory, found i .file resolved file]
    rfl
  · intro i resolved directory
    rw [NameTree.findDirectory, found i .directory resolved directory]
    rfl

/-- Making an inode adds a node. -/
theorem Namespace.Tree.make_tree (f : Path) {contents : Nat → Contents}
    (new : ∀ d, IsNew ns d (contents d)) (sort : ∀ d, (contents d).type = type) :
    ns.tree.make f type =
      (ns.resolve f.parents >>= fun d => ns.make d f.name (contents d)).map Namespace.tree := by
  rcases tree.findDirectory_tree f.parents_isName with ⟨failed, inFile, inDirectory⟩
  rw [NameTree.make]
  cases resolved : ns.resolve f.parents with
  | error code =>
    rw [failed code resolved]
    rfl
  | ok d =>
    have here := (Namespace.resolve_ok_iff f.parents_isName).mp resolved
    rcases Namespace.type_of_live (tree.live_of_resolve f.parents_isName resolved) with ⟨type', typed⟩
    rcases @Namespace.make_cases ns d f.name f.name_isName (contents d) with ⟨file, taken, free⟩
    change _ = Except.map _ (ns.make d f.name (contents d))
    cases type' with
    | file =>
      rw [inFile d resolved typed, file typed]
      rfl
    | directory =>
      rw [inDirectory d resolved typed]
      change (if (ns.tree.node f.names).isSome then _ else _) = _
      cases child : ns.child d f.name with
      | some j =>
        have walked : (walk ns.child 0 f.names).isSome := by
          rw [Path.names, walk_concat, here, Option.bind_some, child]
          rfl
        rw [if_pos (tree.tree_node_isSome_iff.mpr walked), taken j child]
        rfl
      | none =>
        have lost : walk ns.child 0 f.names = none := by
          rw [Path.names, walk_concat, here, Option.bind_some, child]
        rcases free typed child with ⟨ns', made⟩
        rw [Namespace.tree_node_none lost, Option.isSome_none, if_neg Bool.false_ne_true, made,
          Except.map,
          tree.tree_make (new d) resolved made, sort]

omit tree in
theorem Namespace.Found.ne (found : ns.Found f d i) (named : Named 0 ns.child) : i ≠ d := by
  intro same
  have loop := congrArg List.length
    (named.walk_inj found.walk_names (same ▸ found.walk_parents))
  rw [Path.names, List.length_append, List.length_singleton] at loop
  omega

/-- The entry of a path that exists can be taken out of its directory. -/
theorem Namespace.Tree.remove_found (found : ns.Found f d i) :
    ∃ ns₁, ns.remove d f.name = .ok (i, ns₁) ∧ ns.Removed d f.name ns₁ ∧
      ns₁.nodes i = ns.nodes i := by
  rcases Namespace.entry_of_child found.child with ⟨entries, node, member⟩
  refine ⟨_, ?_, tree.removed f.name_isName node,
    Namespace.set_nodes_of_ne (found.ne tree.rooted.toNamed) _⟩
  rw [Namespace.remove, node]
  dsimp only
  rw [(lookupName_ok_iff (tree.directories node).distinct).mpr member]
  rfl

/-- There are ordinary names in a directory that is not empty. -/
theorem Namespace.Tree.empty_iff {entries : List DirEntry}
    (node : ns.nodes i = some (.directory entries)) :
    entries.all DirEntry.isDot = true ↔ ∀ c, ns.child i c = none := by
  refine ⟨Namespace.leaf_of_empty node, ?_⟩
  intro leaf
  rw [List.all_eq_true]
  intro e member
  by_contra ordinary
  have dots : ¬ (e.name = dotName ∨ e.name = dotName ++ dotName) :=
    fun dots => ordinary (decide_eq_true dots)
  have child := leaf e.name
  rw [Namespace.child_eq, if_neg dots, Namespace.entry_directory node,
    (@lookupName_ok_iff _ _ e.inodeId (tree.directories node).distinct).mpr member] at child
  cases child

/-- The node of a path that exists. -/
theorem Namespace.Tree.find_found (found : ns.Found f d i) (typed : ns.type i = some type) :
    ns.tree.find f.names = .ok ⟨type, i⟩ :=
  (tree.find_tree f.names_isName).2 i type
    ((Namespace.resolve_ok_iff f.names_isName).mpr found.walk_names) typed

/-- Something is below the path of a node that has ordinary names. -/
theorem Namespace.Tree.exists_below_iff (found : ns.Found f d i) :
    (∃ c, ns.tree.node (f.names ++ [c]) ≠ none) ↔ ¬ ∀ c, ns.child i c = none := by
  rw [not_forall]
  refine exists_congr fun c => ?_
  rw [← Option.isSome_iff_ne_none, tree.tree_node_isSome_iff, walk_concat, found.walk_names,
    Option.bind_some, Option.isSome_iff_ne_none]

theorem Namespace.Tree.rmdir_tree (found : ns.Found f d i) :
    ns.tree.rmdir f = (ns.rmdir f.parents f.name).map Namespace.tree := by
  rcases tree.remove_found found with ⟨ns₁, taken, removed, kept⟩
  rw [Namespace.rmdir, found.resolved]
  change _ = Except.map _ (ns.remove d f.name >>= _)
  rw [taken]
  change _ = Except.map _ (ns₁.removeDirectory i)
  rw [Namespace.removeDirectory, kept]
  cases node : ns.nodes i with
  | none =>
    have live := tree.rooted.walk_live found.walk_names
    exact absurd node live
  | some contents =>
    cases contents with
    | file =>
      exact (NameTree.rmdir_cases
        (tree.find_found found (Namespace.type_eq_file_iff.mpr node))).1 rfl
    | directory entries =>
      rcases NameTree.rmdir_cases (tree.find_found found
        (Namespace.type_eq_directory_iff.mpr ⟨entries, node⟩)) with ⟨-, full, bare⟩
      dsimp only
      by_cases empty : entries.all DirEntry.isDot = true
      · have leaf := (tree.empty_iff node).mp empty
        have none : ¬ ∃ c, ns.tree.node (f.names ++ [c]) ≠ none :=
          fun some => (tree.exists_below_iff found).mp some leaf
        rw [bare rfl none, if_pos empty, Except.map, tree.tree_removeLeaf found removed leaf]
      · have some : ∃ c, ns.tree.node (f.names ++ [c]) ≠ none :=
          (tree.exists_below_iff found).mpr fun leaf => empty ((tree.empty_iff node).mpr leaf)
        rw [full rfl some, if_neg empty]
        rfl

theorem Namespace.Tree.unlink_tree (found : ns.Found f d i) (file : ns.type i = some .file) :
    ns.tree.unlink f = (ns.unlink f.parents f.name).map Namespace.tree := by
  rcases tree.remove_found found with ⟨ns₁, taken, removed, -⟩
  rw [Namespace.unlink, found.resolved]
  change _ = Except.map _ (ns.remove d f.name >>= _)
  rw [taken, NameTree.unlink, tree.find_found found file]
  change _ = Except.ok (Namespace.tree (ns₁.set i none))
  rw [tree.tree_removeLeaf found removed (Namespace.leaf_of_file file)]
  rfl

theorem Namespace.Tree.rename_tree (found : ns.Found f d i)
    (outside : ns.type i = some .directory → ¬ f.names <+: g.parents) :
    ns.tree.rename f g = (ns.rename f.parents f.name g.parents g.name).map Namespace.tree := by
  rcases tree.remove_found found with ⟨ns₁, taken, removed, -⟩
  rcases tree.findDirectory_tree g.parents_isName with ⟨failed, inFile, inDirectory⟩
  rcases Namespace.type_of_live (tree.rooted.walk_live found.walk_names) with ⟨type, typed⟩
  rw [Namespace.rename, found.resolved, NameTree.rename, tree.find_found found typed]
  change (ns.tree.findDirectory g.parents >>= _) = Except.map _ (ns.resolve g.parents >>= _)
  cases resolved : ns.resolve g.parents with
  | error code =>
    rw [failed code resolved]
    rfl
  | ok e =>
    change _ = Except.map _ (ns.remove d f.name >>= _)
    rw [taken]
    change _ = Except.map _ (ns₁.append e g.name i)
    have there := (Namespace.resolve_ok_iff g.parents_isName).mp resolved
    rcases Namespace.type_of_live (tree.live_of_resolve g.parents_isName resolved) with
      ⟨type', typed'⟩
    rcases @Namespace.append_cases ns₁ e g.name g.name_isName i with ⟨file, present, free⟩
    rw [removed.type] at file free
    rw [removed.child] at present free
    cases type' with
    | file =>
      rw [inFile e resolved typed', file typed']
      rfl
    | directory =>
      rw [inDirectory e resolved typed']
      change (if g.names ≠ f.names ∧ (ns.tree.node g.names).isSome then _ else _) = _
      -- the names are the same exactly if the edges are
      have same_iff : g.names = f.names ↔ e = d ∧ g.name = f.name := by
        refine ⟨?_, ?_⟩
        · intro same
          have parents : g.parents = f.parents := (List.append_inj' same rfl).1
          rw [parents, found.walk_parents] at there
          exact ⟨(Option.some_inj.mp there).symm, List.singleton_inj.mp (List.append_inj' same rfl).2⟩
        · intro same
          rw [same.1] at there
          rw [Path.names, Path.names, same.2, tree.rooted.walk_inj there found.walk_parents]
      have walked : walk ns.child 0 g.names = ns.child e g.name := by
        rw [Path.names, walk_concat, there, Option.bind_some]
      by_cases same : g.names = f.names
      · rw [if_neg (fun both => both.1 same)]
        have absent : detach ns.child d f.name e g.name = none := if_pos (same_iff.mp same)
        rcases free typed' absent with ⟨ns', moved⟩
        rw [moved, Except.map,
          tree.tree_move found removed resolved (found.outside tree resolved typed' outside) moved]
      · have other : detach ns.child d f.name e g.name = ns.child e g.name :=
          detach_other fun both => same (same_iff.mpr both)
        cases child : ns.child e g.name with
        | some j =>
          have taken' : (walk ns.child 0 g.names).isSome := by
            rw [walked, child]
            rfl
          rw [if_pos ⟨same, tree.tree_node_isSome_iff.mpr taken'⟩, present j (other.trans child)]
          rfl
        | none =>
          rcases free typed' (other.trans child) with ⟨ns', moved⟩
          rw [Namespace.tree_node_none (walked.trans child),
            if_neg (fun both => Bool.false_ne_true both.2), moved, Except.map,
            tree.tree_move found removed resolved (found.outside tree resolved typed' outside) moved]

/-- An operation has the same result on a namespace and on its tree. -/
theorem Namespace.Tree.apply_tree {op : PathOp} (allowed : op.Allowed ns) :
    ns.tree.apply op = (ns.apply op).map Namespace.tree := by
  cases op with
  | mkdir f mode now => exact tree.make_tree f (fun _ => Or.inr rfl) (fun _ => rfl)
  | create f mode now => exact tree.make_tree f (fun _ => Or.inl rfl) (fun _ => rfl)
  | rmdir f =>
    rcases allowed with ⟨d, i, found⟩
    exact tree.rmdir_tree found
  | unlink f =>
    rcases allowed with ⟨d, i, found, file⟩
    exact tree.unlink_tree found file
  | rename f g =>
    rcases allowed with ⟨d, i, found, outside⟩
    exact tree.rename_tree found outside

end Operations

/-! ## Runs -/

theorem Namespace.Tree.after_tree (tree : ns.Tree) {op : PathOp} (allowed : op.Allowed ns) :
    (ns.after op).tree = ns.tree.after op := by
  rw [NameTree.after, tree.apply_tree allowed, Namespace.after]
  cases ns.apply op with
  | error code => rfl
  | ok ns' => rfl

theorem Namespace.fresh_nameTree : Namespace.fresh.tree = NameTree.fresh := by
  refine Namespace.tree_eq ?_ rfl
  intro p
  by_cases root : p = []
  · subst root
    exact Namespace.tree_node rfl (Namespace.type_eq_directory_iff.mpr ⟨_, Namespace.fresh_root⟩)
  · rw [Namespace.tree_node_none (walk_leaf (Namespace.fresh_childless 0) root)]
    exact (if_neg root).symm

/-- The code that a call returns. -/
def TxnEnd.code : TxnEnd → MtlCode
  | committed _ => .success
  | aborted code => code
  | leftOpen code => code

/-- Paths lead where they lead in the tree, calls return what the operations on it do, and they do
not move what is not below their operands. -/
structure RefinesTree (env : Env) (t : NameTree) : Prop where
  opens : ∀ p, (∀ c ∈ p, IsName c) →
    mtlOpen env.db (pathOf p) = some ((t.find p).map Node.inodeId)
  gets : ∀ p, (∀ c ∈ p, IsName c) → ∃ result, mtlGetInode env.db (pathOf p) = some result ∧
    result.map Inode.type = (t.find p).map Node.type
  returns : ∀ u (op : PathOp), op.Admitted env.db →
    ∃ ended, op.call.txn u env.db = some ended ∧ ended.code = t.code op
  frame : ∀ u (op : PathOp) env', op.Admitted env.db → PathOp.step env (u, op) = some env' →
    ∀ p, (∀ c ∈ p, IsName c) → (∀ f ∈ op.operands, ¬ f.names <+: p) →
      mtlOpen env'.db (pathOf p) = mtlOpen env.db (pathOf p)

variable {env : Env}

theorem Holds.opens (holds : Holds env ns) (isName : ∀ c ∈ p, IsName c) :
    mtlOpen env.db (pathOf p) = some ((ns.tree.find p).map Node.inodeId) := by
  rcases holds.tree.find_tree isName with ⟨failed, found⟩
  rw [holds.represents.open_eq holds.tree isName]
  cases resolved : ns.resolve p with
  | error code =>
    rw [failed code resolved]
    rfl
  | ok i =>
    rcases Namespace.type_of_live (holds.tree.live_of_resolve isName resolved) with ⟨type, typed⟩
    rw [found i type resolved typed]
    rfl

theorem Holds.gets (holds : Holds env ns) (isName : ∀ c ∈ p, IsName c) :
    ∃ result, mtlGetInode env.db (pathOf p) = some result ∧
      result.map Inode.type = (ns.tree.find p).map Node.type := by
  rcases holds.tree.find_tree isName with ⟨failed, found⟩
  rcases holds.represents.getInode holds.tree isName with ⟨failed', found'⟩
  cases resolved : ns.resolve p with
  | error code => exact ⟨_, failed' code resolved, by rw [failed code resolved]; rfl⟩
  | ok i =>
    rcases found' i resolved with ⟨inode, got, typed⟩
    exact ⟨_, got, by rw [found i _ resolved typed]; rfl⟩

theorem Holds.returns (holds : Holds env ns) {op : PathOp} (admitted : op.Admitted env.db)
    (u : Uninitialised) :
    ∃ ended, op.call.txn u env.db = some ended ∧ ended.code = ns.tree.code op := by
  have allowed := holds.allowed admitted
  rcases holds.represents.txn holds.tree allowed u with ⟨ended, txn, ends⟩
  refine ⟨ended, txn, ?_⟩
  rw [NameTree.code, holds.tree.apply_tree allowed]
  generalize ns.apply op = result at ends
  cases ends with
  | committed represents => rfl
  | aborted code => rfl

theorem Holds.frame (holds : Holds env ns) {u : Uninitialised} {op : PathOp} {env' : Env}
    (admitted : op.Admitted env.db) (returned : PathOp.step env (u, op) = some env')
    (isName : ∀ c ∈ p, IsName c) (off : ∀ f ∈ op.operands, ¬ f.names <+: p) :
    mtlOpen env'.db (pathOf p) = mtlOpen env.db (pathOf p) := by
  have allowed := holds.allowed admitted
  rcases holds.step allowed u with ⟨env'', returned', holds'⟩
  rw [returned'] at returned
  cases returned
  rw [holds'.opens isName, holds.opens isName, holds.tree.after_tree allowed,
    NameTree.find_frame off]

theorem Holds.refinesTree (holds : Holds env ns) : RefinesTree env ns.tree :=
  ⟨fun _ isName => holds.opens isName, fun _ isName => holds.gets isName,
    fun u _ admitted => holds.returns admitted u,
    fun _ _ _ admitted returned _ isName off => holds.frame admitted returned isName off⟩

/-- The tree of what a run of admitted calls leaves is what the operations leave of the tree. -/
theorem Holds.run_tree {calls : List (Uninitialised × PathOp)} (holds : Holds env ns)
    (admitted : Runs.Steps PathOp.step PathOp.AdmittedIn env calls) :
    ((calls.map Prod.snd).foldl Namespace.after ns).tree =
      (calls.map Prod.snd).foldl NameTree.after ns.tree := by
  induction calls generalizing env ns with
  | nil => rfl
  | cons call calls ih =>
    rcases admitted with ⟨first, rest⟩
    have allowed := holds.allowed first
    rcases holds.step allowed call.1 with ⟨env₁, returned, holds₁⟩
    rw [List.map_cons, List.foldl_cons, List.foldl_cons, ih holds₁ (rest env₁ returned),
      holds.tree.after_tree allowed]

/-- After every run of admitted calls from a fresh store, paths lead where they lead in the tree of
names after the same operations, and the next call does to the one what it does to the other. -/
theorem run_refines_nameTree {metadata : StorageMetadata} {now : Int} {db : Db}
    {calls : List (Uninitialised × PathOp)}
    (initialised : mtlInitialize emptyDb metadata now = some db)
    (admitted : Runs.Steps PathOp.step PathOp.AdmittedIn ⟨db, false⟩ calls) :
    ∃ env, Runs.run PathOp.step ⟨db, false⟩ calls = some env ∧
      RefinesTree env ((calls.map Prod.snd).foldl NameTree.after NameTree.fresh) := by
  have start := Holds.fresh initialised
  rcases start.run admitted with ⟨env, finished, holds⟩
  refine ⟨env, finished, ?_⟩
  rw [← Namespace.fresh_nameTree, ← start.run_tree admitted]
  exact holds.refinesTree

/-- Directories and files are made, moved and not removed while something is in them. -/
def busyCalls : List (Uninitialised × PathOp) :=
  [.mkdir dirA 0 0, .create bInA 0 0, .mkdir dirB 0 0, .rename dirA aInB, .rmdir dirB].map
    (garbage, ·)

theorem run_refines_nameTree_busy :
    Runs.Steps PathOp.step PathOp.AdmittedIn ⟨rootDb, false⟩ busyCalls ∧
      ∃ env, Runs.run PathOp.step ⟨rootDb, false⟩ busyCalls = some env ∧
        RefinesTree env ((busyCalls.map Prod.snd).foldl NameTree.after NameTree.fresh) := by
  have initialised : mtlInitialize emptyDb ⟨8, 512⟩ 0 = some rootDb := (Option.some_get _).symm
  have admitted : Runs.Steps PathOp.step PathOp.AdmittedIn ⟨rootDb, false⟩ busyCalls := by
    decide +kernel
  exact ⟨admitted, run_refines_nameTree initialised admitted⟩

end MetalFs
