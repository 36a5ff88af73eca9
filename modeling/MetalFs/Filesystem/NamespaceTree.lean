import MetalFs.Filesystem.Namespace

/-!
# The tree of a namespace

The operations on a namespace change one edge of its tree or move one: making an inode attaches a
leaf, removing one detaches a leaf, and a rename moves a subtree.

* `Namespace.entry_concat`, `Namespace.entry_withoutName`: the edges after a change of a directory;
* `Namespace.Tree.make`, `Namespace.Tree.removeLeaf`, `Namespace.Tree.move`: the result is a tree
  again; which one, say the lemmas on its shape.
-/

namespace MetalFs

open NameGraph

variable {ns ns' : Namespace} {d e i j : Nat} {c f : List Byte} {entries : List DirEntry}

/-! ## Edges -/

/-- The inode that an inode gives a name. -/
def Namespace.entry (ns : Namespace) (d : Nat) (c : List Byte) : Option Nat :=
  (ns.lookup d c).toOption

/-- Whether an inode is a file or a directory. -/
def Contents.type : Contents → InodeType
  | file => .file
  | directory _ => .directory

@[inherit_doc Contents.type]
def Namespace.type (ns : Namespace) (i : Nat) : Option InodeType := (ns.nodes i).map Contents.type

theorem Namespace.child_eq (ns : Namespace) (d : Nat) (c : List Byte) :
    ns.child d c = if c = dotName ∨ c = dotName ++ dotName then none else ns.entry d c := rfl

theorem Namespace.child_of_isName (name : IsName c) (d : Nat) : ns.child d c = ns.entry d c :=
  child_of_name name d

theorem Namespace.entry_directory (node : ns.nodes d = some (.directory entries)) (c : List Byte) :
    ns.entry d c = (lookupName entries c).toOption := by
  rw [entry, lookup, node]

theorem Namespace.entry_congr (same : ns'.nodes d = ns.nodes d) (c : List Byte) :
    ns'.entry d c = ns.entry d c := by
  rw [entry, entry, lookup, lookup, same]

theorem Namespace.entry_of_not_directory
    (other : ∀ entries, ns.nodes d ≠ some (.directory entries)) (c : List Byte) :
    ns.entry d c = none := by
  rw [entry, lookup]
  split
  · rename_i entries node
    exact absurd node (other entries)
  · rfl

/-- Two namespaces with the same entries have the same ordinary names. -/
theorem Namespace.child_attach (name : IsName f) (same : ns'.entry = attach ns.entry d f i) :
    ns'.child = attach ns.child d f i := by
  funext d' c
  rw [child_eq, same]
  by_cases dots : c = dotName ∨ c = dotName ++ dotName
  · have other : ¬ (d' = d ∧ c = f) := by
      intro both
      rw [both.2] at dots
      exact dots.elim name.notDot name.notDotDot
    rw [if_pos dots, attach_other other, child_eq, if_pos dots]
  · rw [if_neg dots]
    by_cases here : d' = d ∧ c = f
    · rw [here.1, here.2, attach_self, attach_self]
    · rw [attach_other here, attach_other here, child_eq, if_neg dots]

theorem Namespace.child_detach (same : ns'.entry = detach ns.entry d f) :
    ns'.child = detach ns.child d f := by
  funext d' c
  rw [child_eq, same]
  by_cases here : d' = d ∧ c = f
  · rw [here.1, here.2, detach_self, detach_self]
    exact ite_self none
  · rw [detach_other here, detach_other here, child_eq]

theorem lookupName_concat (absent : f ∉ entries.map DirEntry.name) (c : List Byte) :
    lookupName (entries ++ [⟨f, i⟩]) c = if c = f then .ok i else lookupName entries c := by
  by_cases same : c = f
  · subst same
    have missing : entries.find? (DirEntry.isNamed c) = none := by
      rw [List.find?_eq_none]
      intro e member named
      exact absent (List.mem_map.mpr ⟨e, member, DirEntry.isNamed_iff.mp named⟩)
    have here : (⟨c, i⟩ : DirEntry).isNamed c = true := DirEntry.isNamed_iff.mpr rfl
    rw [if_pos rfl, lookupName, List.find?_append, missing, Option.none_or,
      List.find?_cons_of_pos here]
  · have other : ([⟨f, i⟩] : List DirEntry).find? (DirEntry.isNamed c) = none := by
      rw [List.find?_cons_of_neg]
      · rfl
      · intro named
        exact same (DirEntry.isNamed_iff.mp named).symm
    rw [if_neg same, lookupName, lookupName, List.find?_append, other, Option.or_none]

theorem lookupName_withoutName (c : List Byte) :
    lookupName (withoutName entries f) c =
      if c = f then .error .errorNoentry else lookupName entries c := by
  induction entries with
  | nil => exact (ite_self _).symm
  | cons e entries ih =>
    by_cases named : e.name = f
    · rw [withoutName_cons_named named, ih]
      by_cases same : c = f
      · rw [if_pos same, if_pos same]
      · have other : ¬ e.isNamed c = true := by
          intro found
          exact same ((DirEntry.isNamed_iff.mp found).symm.trans named)
        rw [if_neg same, if_neg same, lookupName, lookupName, List.find?_cons_of_neg other]
    · rw [withoutName_cons_other named]
      by_cases found : e.isNamed c = true
      · have same : c ≠ f := by
          intro same
          exact named ((DirEntry.isNamed_iff.mp found).trans same)
        rw [if_neg same, lookupName, lookupName, List.find?_cons_of_pos found,
          List.find?_cons_of_pos found]
      · rw [lookupName, List.find?_cons_of_neg found, ← lookupName, ih, lookupName, lookupName,
          List.find?_cons_of_neg found]

theorem Namespace.append_eq_ok (appended : ns.append d f i = .ok ns') :
    ∃ entries, ns.nodes d = some (.directory entries) ∧ f ∉ entries.map DirEntry.name ∧
      ns' = ns.set d (some (.directory (entries ++ [⟨f, i⟩]))) := by
  rw [append] at appended
  split at appended
  · rename_i entries node
    split at appended
    · cases appended
    · rename_i absent
      exact ⟨entries, node, absent, (Except.ok.inj appended).symm⟩
  · cases appended

/-- One inode gets other contents. -/
theorem Namespace.entry_set {contents : Option Contents} {edges : Nat → List Byte → Option Nat}
    (here : ∀ c, (ns.set d contents).entry d c = edges d c)
    (others : ∀ j c, j ≠ d → ns.entry j c = edges j c) : (ns.set d contents).entry = edges := by
  funext j c
  by_cases same : j = d
  · subst same
    exact here c
  · rw [entry_congr (set_nodes_of_ne same _), others j c same]

theorem Namespace.entry_concat (node : ns.nodes d = some (.directory entries))
    (absent : f ∉ entries.map DirEntry.name) (i : Nat) :
    (ns.set d (some (.directory (entries ++ [⟨f, i⟩])))).entry = attach ns.entry d f i := by
  refine entry_set ?_ ?_
  · intro c
    rw [entry_directory (set_nodes_self _), lookupName_concat absent]
    by_cases here : c = f
    · rw [here, attach_self, if_pos rfl]
      rfl
    · rw [attach_other (fun both => here both.2), if_neg here, entry_directory node]
  · intro j c different
    rw [attach_other (fun both => different both.1)]

theorem Namespace.entry_withoutName (node : ns.nodes d = some (.directory entries)) (f : List Byte) :
    (ns.set d (some (.directory (withoutName entries f)))).entry = detach ns.entry d f := by
  refine entry_set ?_ ?_
  · intro c
    rw [entry_directory (set_nodes_self _), lookupName_withoutName]
    by_cases here : c = f
    · rw [here, detach_self, if_pos rfl]
      rfl
    · rw [detach_other (fun both => here both.2), if_neg here, entry_directory node]
  · intro j c different
    rw [detach_other (fun both => different both.1)]

theorem Namespace.type_set (i : Nat) (contents : Option Contents) :
    (ns.set i contents).type = Function.update ns.type i (contents.map Contents.type) := by
  funext j
  by_cases same : j = i
  · rw [same, type, set_nodes_self, Function.update_self]
  · rw [type, set_nodes_of_ne same, Function.update_of_ne same, type]

/-- Other entries do not make a directory something else. -/
theorem Namespace.type_set_directory (node : ns.nodes d = some (.directory entries))
    (entries' : List DirEntry) : (ns.set d (some (.directory entries'))).type = ns.type := by
  have same : ns.type d = some .directory := by
    rw [type, node]
    rfl
  rw [type_set, Option.map_some, Contents.type, ← same, Function.update_eq_self]

theorem Namespace.live_iff : ns.Live i ↔ ns.type i ≠ none := by
  rw [Live, type, ne_eq, ne_eq, Option.map_eq_none_iff]

/-! ## Directories -/

theorem IsDirectory.append (ok : IsDirectory d entries) (absent : f ∉ entries.map DirEntry.name) :
    IsDirectory d (entries ++ [⟨f, i⟩]) := by
  refine ⟨?_, List.mem_append_left _ ok.dot, ?_⟩
  · rw [List.map_append, List.map_singleton]
    refine List.nodup_append.mpr ⟨ok.distinct, List.nodup_singleton _, ?_⟩
    intro name old name' new same
    rw [same, List.mem_singleton.mp new] at old
    exact absent old
  · rw [List.map_append]
    exact List.mem_append_left _ ok.dotDot

theorem mem_withoutName_iff {entry : DirEntry} :
    entry ∈ withoutName entries f ↔ entry ∈ entries ∧ entry.name ≠ f := by
  rw [withoutName, List.mem_filter, decide_eq_true_iff]

theorem IsDirectory.withoutName (ok : IsDirectory d entries) (name : IsName f) :
    IsDirectory d (withoutName entries f) := by
  refine ⟨?_, mem_withoutName_iff.mpr ⟨ok.dot, Ne.symm name.notDot⟩, ?_⟩
  · exact ok.distinct.sublist (List.filter_sublist.map DirEntry.name)
  · rcases List.mem_map.mp ok.dotDot with ⟨entry, member, named⟩
    refine List.mem_map.mpr ⟨entry, mem_withoutName_iff.mpr ⟨member, ?_⟩, named⟩
    rw [named]
    exact Ne.symm name.notDotDot

theorem newEntries_isDirectory (i d : Nat) : IsDirectory i (Namespace.newEntries i d) := by
  have names : (Namespace.newEntries i d).map DirEntry.name = [dotName, dotName ++ dotName] := rfl
  refine ⟨?_, List.mem_cons_self, ?_⟩
  · rw [names]
    decide
  · rw [names]
    decide

/-- A new directory has no ordinary names. -/
theorem Namespace.child_newEntries (node : ns.nodes j = some (.directory (newEntries i d)))
    (c : List Byte) : ns.child j c = none := by
  rw [child_eq]
  by_cases dots : c = dotName ∨ c = dotName ++ dotName
  · rw [if_pos dots]
  · rw [if_neg dots, entry_directory node, lookupName, newEntries, List.find?_cons_of_neg,
      List.find?_cons_of_neg]
    · rfl
    · intro named
      exact dots (Or.inr (DirEntry.isNamed_iff.mp named).symm)
    · intro named
      exact dots (Or.inl (DirEntry.isNamed_iff.mp named).symm)

/-- The directories stay directories if one of them gets other entries. -/
theorem Namespace.directories_set (directories : ∀ {d entries},
      ns.nodes d = some (.directory entries) → IsDirectory d entries)
    {contents : Option Contents}
    (here : ∀ {entries}, contents = some (.directory entries) → IsDirectory i entries) :
    ∀ {d entries}, (ns.set i contents).nodes d = some (.directory entries) →
      IsDirectory d entries := by
  intro d entries node
  by_cases same : d = i
  · subst same
    rw [set_nodes_self] at node
    exact here node
  · rw [set_nodes_of_ne same] at node
    exact directories node

theorem Namespace.type_eq_directory_iff :
    ns.type d = some .directory ↔ ∃ entries, ns.nodes d = some (.directory entries) := by
  rw [type]
  cases ns.nodes d with
  | none =>
    refine ⟨?_, ?_⟩
    · intro no
      cases no
    · intro no
      rcases no with ⟨entries, no⟩
      cases no
  | some contents =>
    cases contents with
    | file =>
      refine ⟨?_, ?_⟩
      · intro no
        cases no
      · intro no
        rcases no with ⟨entries, no⟩
        cases no
    | directory entries => exact ⟨fun _ => ⟨entries, rfl⟩, fun _ => rfl⟩

theorem Namespace.type_of_child (found : ns.child d f = some i) : ns.type d = some .directory := by
  rcases entry_of_child found with ⟨entries, node, -⟩
  exact type_eq_directory_iff.mpr ⟨entries, node⟩

/-- The inode that a directory names as its parent. -/
def Namespace.dotDot (ns : Namespace) (d : Nat) : Option Nat := ns.entry d (dotName ++ dotName)

theorem Namespace.dotDot_attach (name : IsName f) (same : ns'.entry = attach ns.entry d f i) :
    ns'.dotDot = ns.dotDot := by
  funext j
  rw [dotDot, same, attach_other]
  · rfl
  · intro both
    exact name.notDotDot both.2.symm

theorem Namespace.dotDot_detach (name : IsName f) (same : ns'.entry = detach ns.entry d f) :
    ns'.dotDot = ns.dotDot := by
  funext j
  rw [dotDot, same, detach_other]
  · rfl
  · intro both
    exact name.notDotDot both.2.symm

/-! ## Making an inode -/

theorem Namespace.make_eq_ok {contents : Contents} (made : ns.make d f contents = .ok ns') :
    ∃ entries, ns.nodes d = some (.directory entries) ∧ f ∉ entries.map DirEntry.name ∧
      ns' = (({ ns with next := ns.next + 1 } : Namespace).set d
        (some (.directory (entries ++ [⟨f, ns.next⟩])))).set ns.next (some contents) := by
  rw [make] at made
  cases appended : ({ ns with next := ns.next + 1 } : Namespace).append d f ns.next with
  | error code =>
    rw [appended] at made
    cases made
  | ok ns₁ =>
    rw [appended] at made
    rcases append_eq_ok appended with ⟨entries, node, absent, rfl⟩
    exact ⟨entries, node, absent, (Except.ok.inj made).symm⟩

namespace Namespace.Tree

theorem fresh (tree : ns.Tree) : ¬ ns.Live ns.next := fun live => Nat.lt_irrefl _ (tree.below live)

theorem ne_next (tree : ns.Tree) (live : ns.Live i) : i ≠ ns.next := by
  intro same
  rw [same] at live
  exact tree.fresh live

/-- What a new inode stands for. -/
def IsNew (ns : Namespace) (d : Nat) (contents : Contents) : Prop :=
  contents = .file ∨ contents = .directory (newEntries ns.next d)

/-- A new inode is a leaf of its directory. -/
theorem make_shape (tree : ns.Tree) {contents : Contents} (new : IsNew ns d contents)
    (name : IsName f) (made : ns.make d f contents = .ok ns') :
    ns'.child = attach ns.child d f ns.next ∧
      ns'.type = Function.update ns.type ns.next (some contents.type) ∧ ns'.next = ns.next + 1 ∧
      (∀ j, j ≠ ns.next → ns'.dotDot j = ns.dotDot j) ∧
      (contents.type = .directory → ns'.dotDot ns.next = some d) ∧
      ns.type d = some .directory ∧ ns.child d f = none := by
  rcases make_eq_ok made with ⟨entries, node, absent, rfl⟩
  have node' : ({ ns with next := ns.next + 1 } : Namespace).nodes d = some (.directory entries) :=
    node
  have grown := entry_concat node' absent ns.next
  have missing : ns.nodes ns.next = none := by
    by_contra live
    exact tree.fresh live
  have apart : d ≠ ns.next := by
    intro same
    rw [same, missing] at node
    cases node
  generalize larger : ({ ns with next := ns.next + 1 } : Namespace).set d
    (some (.directory (entries ++ [⟨f, ns.next⟩]))) = ns₁ at grown
  have type₁ : ns₁.type = ns.type := by
    rw [← larger]
    exact type_set_directory node' _
  have next₁ : ns₁.next = ns.next + 1 := by
    rw [← larger]
    rfl
  have child₁ : ns₁.child = attach ns.child d f ns.next := child_attach name grown
  have dotDot₁ : ns₁.dotDot = ns.dotDot := dotDot_attach name grown
  have others : ∀ j, j ≠ ns.next → (ns₁.set ns.next (some contents)).nodes j = ns₁.nodes j :=
    fun j different => set_nodes_of_ne different _
  refine ⟨?_, ?_, next₁, ?_, ?_, type_eq_directory_iff.mpr ⟨entries, node⟩, ?_⟩
  · funext j c
    by_cases same : j = ns.next
    · have old : attach ns.child d f ns.next j c = none := by
        rw [attach_other (fun both => apart (both.1.symm.trans same)), same]
        exact tree.rooted.no_child tree.fresh c
      rw [old, same]
      rcases new with rfl | rfl
      · rw [child_eq, entry_of_not_directory]
        · exact ite_self none
        · intro entries no
          rw [set_nodes_self] at no
          cases no
      · exact child_newEntries (set_nodes_self _) c
    · rw [← child₁, child_eq, child_eq, entry_congr (others j same)]
  · rw [type_set, type₁, Option.map_some]
  · intro j different
    rw [dotDot, entry_congr (others j different), ← dotDot, dotDot₁]
  · intro directory
    rcases new with rfl | rfl
    · cases directory
    · rw [dotDot, entry_directory (set_nodes_self _)]
      rfl
  · rw [child_of_isName name, entry_directory node, (lookupName_error_iff.mpr ⟨rfl, absent⟩)]
    rfl

theorem make (tree : ns.Tree) {contents : Contents} (new : IsNew ns d contents)
    (room : ns.next < 2 ^ 64) (name : IsName f) (made : ns.make d f contents = .ok ns') :
    ns'.Tree := by
  rcases tree.make_shape new name made with ⟨child, type, next, -, -, directory, free⟩
  have live : ns'.Live = fun j => ns.Live j ∨ j = ns.next := by
    funext j
    refine propext ?_
    rw [live_iff, type]
    by_cases same : j = ns.next
    · rw [same, Function.update_self]
      exact iff_of_true (Option.some_ne_none _) (Or.inr rfl)
    · rw [Function.update_of_ne same, ← live_iff, or_iff_left same]
  have parent : ns.Live d := by
    rw [live_iff, directory]
    exact Option.some_ne_none _
  refine ⟨?_, ?_, ?_, ?_, ?_⟩
  · rw [live, child]
    exact tree.rooted.attach parent free tree.fresh
  · refine type_eq_directory_iff.mp ?_
    rw [type, Function.update_of_ne (tree.ne_next tree.rooted.rootLive)]
    exact type_eq_directory_iff.mpr tree.root
  · rcases make_eq_ok made with ⟨entries, node, absent, rfl⟩
    refine directories_set (directories_set tree.directories ?_) ?_
    · intro entries' same
      cases same
      exact (tree.directories node).append absent
    · intro entries' same
      rcases new with rfl | rfl
      · cases same
      · cases same
        exact newEntries_isDirectory _ _
  · intro j alive
    rw [live] at alive
    rw [next]
    rcases alive with old | rfl
    · exact Nat.lt_succ_of_lt (tree.below old)
    · exact Nat.lt_succ_self _
  · rw [next]
    exact room

end Namespace.Tree

/-! ## Taking an entry away -/

/-- One entry less. -/
structure Namespace.Removed (ns : Namespace) (d : Nat) (f : List Byte) (ns₁ : Namespace) : Prop where
  child : ns₁.child = detach ns.child d f
  type : ns₁.type = ns.type
  next : ns₁.next = ns.next
  dotDot : ns₁.dotDot = ns.dotDot
  directories : ∀ {d' entries}, ns₁.nodes d' = some (.directory entries) → IsDirectory d' entries

theorem Namespace.Tree.removed (tree : ns.Tree) (name : IsName f)
    (node : ns.nodes d = some (.directory entries)) :
    ns.Removed d f (ns.set d (some (.directory (withoutName entries f)))) := by
  have shrunk := entry_withoutName node f
  refine ⟨child_detach shrunk, type_set_directory node _, rfl, dotDot_detach name shrunk, ?_⟩
  refine directories_set tree.directories ?_
  intro entries' same
  cases same
  exact (tree.directories node).withoutName name

variable {ns₁ : Namespace}

theorem Namespace.remove_eq_ok (removed : ns.remove d f = .ok (i, ns₁)) :
    ∃ entries, ns.nodes d = some (.directory entries) ∧ lookupName entries f = .ok i ∧
      ns₁ = ns.set d (some (.directory (withoutName entries f))) := by
  rw [remove] at removed
  split at removed
  · rename_i entries node
    cases found : lookupName entries f with
    | error code =>
      rw [found] at removed
      cases removed
    | ok j =>
      rw [found] at removed
      cases removed
      exact ⟨entries, node, found, rfl⟩
  · cases removed

theorem Namespace.Tree.of_remove (tree : ns.Tree) (name : IsName f)
    (removed : ns.remove d f = .ok (i, ns₁)) :
    ns.Removed d f ns₁ ∧ ns.child d f = some i := by
  rcases remove_eq_ok removed with ⟨entries, node, found, rfl⟩
  refine ⟨tree.removed name node, ?_⟩
  rw [child_of_isName name, entry_directory node, found]
  rfl

/-! ## Removing a leaf -/

theorem Namespace.Tree.removeLeaf_shape (removed : ns.Removed d f ns₁)
    (found : ns.child d f = some i) (leaf : ∀ c, ns.child i c = none) :
    (ns₁.set i none).child = detach ns.child d f ∧
      (ns₁.set i none).type = Function.update ns.type i none ∧
      ∀ j, j ≠ i → (ns₁.set i none).dotDot j = ns.dotDot j := by
  refine ⟨?_, ?_, ?_⟩
  · funext j c
    rw [← removed.child]
    by_cases same : j = i
    · have gone : (ns₁.set i none).child j c = none := by
        rw [child_eq, entry_of_not_directory]
        · exact ite_self none
        · intro entries no
          rw [same, set_nodes_self] at no
          cases no
      have apart : ¬ (j = d ∧ c = f) := by
        intro both
        rw [← both.1, same, leaf] at found
        cases found
      rw [gone, removed.child, detach_other apart, same, leaf]
    · rw [child_eq, child_eq, entry_congr (set_nodes_of_ne same _)]
  · rw [type_set, removed.type, Option.map_none]
  · intro j different
    rw [dotDot, entry_congr (set_nodes_of_ne different _), ← dotDot, removed.dotDot]

/-- Removing an inode without ordinary names leaves a tree. -/
theorem Namespace.Tree.removeLeaf (tree : ns.Tree) (removed : ns.Removed d f ns₁)
    (found : ns.child d f = some i) (leaf : ∀ c, ns.child i c = none) : (ns₁.set i none).Tree := by
  rcases removeLeaf_shape removed found leaf with ⟨child, type, -⟩
  have live : (ns₁.set i none).Live = fun j => ns.Live j ∧ j ≠ i := by
    funext j
    refine propext ?_
    rw [live_iff, type]
    by_cases same : j = i
    · rw [same, Function.update_self]
      exact iff_of_false (not_not.mpr rfl) (fun no => no.2 rfl)
    · rw [Function.update_of_ne same, ← live_iff, and_iff_left same]
  refine ⟨?_, ?_, ?_, ?_, ?_⟩
  · rw [live, child]
    exact tree.rooted.detach found leaf
  · refine type_eq_directory_iff.mp ?_
    rw [type, Function.update_of_ne (tree.rooted.notRoot found).symm]
    exact type_eq_directory_iff.mpr tree.root
  · refine directories_set removed.directories ?_
    intro entries no
    cases no
  · intro j alive
    rw [live] at alive
    exact Nat.lt_of_lt_of_eq (tree.below alive.1) removed.next.symm
  · exact Nat.le_trans (Nat.le_of_eq removed.next) tree.small

/-! ## Moving an entry -/

theorem Namespace.Tree.move_shape {m : List Byte} (removed : ns.Removed d f ns₁) (name : IsName m)
    (moved : ns₁.append e m i = .ok ns') :
    ns'.child = attach (detach ns.child d f) e m i ∧ ns'.type = ns.type ∧ ns'.next = ns.next ∧
      ns'.dotDot = ns.dotDot ∧ ns.type e = some .directory ∧ detach ns.child d f e m = none := by
  rcases append_eq_ok moved with ⟨entries, node, absent, rfl⟩
  have grown := entry_concat node absent i
  refine ⟨?_, ?_, removed.next, ?_, ?_, ?_⟩
  · rw [child_attach name grown, removed.child]
  · rw [type_set_directory node, removed.type]
  · rw [dotDot_attach name grown, removed.dotDot]
  · rw [← removed.type]
    exact type_eq_directory_iff.mpr ⟨entries, node⟩
  · rw [← removed.child, child_of_isName name, entry_directory node,
      lookupName_error_iff.mpr ⟨rfl, absent⟩]
    rfl

/-- Moving a subtree to a directory outside of it leaves a tree. -/
theorem Namespace.Tree.move {m : List Byte} (tree : ns.Tree) (removed : ns.Removed d f ns₁)
    (found : ns.child d f = some i) (name : IsName m) (moved : ns₁.append e m i = .ok ns')
    (outside : ∀ r, walk ns.child i r ≠ some e) : ns'.Tree := by
  rcases move_shape removed name moved with ⟨child, type, next, -, directory, free⟩
  have live : ns'.Live = ns.Live := by
    funext j
    rw [eq_iff_iff, live_iff, type, ← live_iff]
  have target : ns.Live e := by
    rw [live_iff, directory]
    exact Option.some_ne_none _
  refine ⟨?_, ?_, ?_, ?_, ?_⟩
  · rw [live, child]
    exact tree.rooted.move found free outside target
  · refine type_eq_directory_iff.mp ?_
    rw [type]
    exact type_eq_directory_iff.mpr tree.root
  · rcases append_eq_ok moved with ⟨entries, node, absent, rfl⟩
    refine directories_set removed.directories ?_
    intro entries' same
    cases same
    exact (removed.directories node).append absent
  · intro j alive
    rw [live] at alive
    exact Nat.lt_of_lt_of_eq (tree.below alive) next.symm
  · exact Nat.le_trans (Nat.le_of_eq next) tree.small

end MetalFs
