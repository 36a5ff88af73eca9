import MetalFs.Filesystem.Metal

/-!
# The mounts of the driver

`CombinedFuseHandler` passes a call of FUSE on to the first of its handlers whose prefix the path
starts with, and strips that prefix from the path.  The prefixes are compared as strings, so that
`/files` is a prefix of `/filesystem`.

A call is passed on unchanged but for its paths.  The pointers that only say where the results go
are left out of a call.

* `CombinedFuseHandler.call_forwarded`: where a call is passed on to, and as what;
* `CombinedFuseHandler.routes_by_component`: if no prefix ends within a component of the path, a call
  goes to the mount that the path is below of.
-/

namespace MetalFs.Driver.Fuse

/-- The codes of the handlers themselves. -/
inductive Errno where
  | enoent
  | enosys
deriving DecidableEq, Repr

/-- A call of one of the methods of a `FuseHandler`. -/
inductive FuseCall where
  | fuseChown (path : List Byte) (uid gid : Nat)
  | fuseGetattr (path : List Byte)
  | fuseReaddir (path : List Byte) (offset : Nat)
  | fuseCreate (path : List Byte) (mode : Nat)
  | fuseReadlink (path : List Byte) (size : Nat)
  | fuseOpen (path : List Byte)
  | fuseRead (path : List Byte) (size offset : Nat)
  | fuseRelease (path : List Byte)
  | fuseTruncate (path : List Byte) (size : Nat)
  | fuseWrite (path : List Byte) (buf : List Byte) (offset fh : Nat)
  | fuseUnlink (path : List Byte)
  | fuseMkdir (path : List Byte) (mode : Nat)
  | fuseRmdir (path : List Byte)
  | fuseRename (fromPath toPath : List Byte)
deriving DecidableEq, Repr

/-- The paths of a call. -/
def FuseCall.paths : FuseCall → List (List Byte)
  | fuseRename fromPath toPath => [fromPath, toPath]
  | fuseChown path _ _ | fuseGetattr path | fuseReaddir path _ | fuseCreate path _
  | fuseReadlink path _ | fuseOpen path | fuseRead path _ _ | fuseRelease path
  | fuseTruncate path _ | fuseWrite path _ _ _ | fuseUnlink path | fuseMkdir path _
  | fuseRmdir path => [path]

/-- The path that decides where a call goes. -/
def FuseCall.path (call : FuseCall) : List Byte := call.paths.headD []

/-- The call as a handler gets it: without the prefix in its paths. -/
def FuseCall.below (mount : List Byte) : FuseCall → FuseCall
  | fuseChown path uid gid => fuseChown (path.drop mount.length) uid gid
  | fuseGetattr path => fuseGetattr (path.drop mount.length)
  | fuseReaddir path offset =>
    fuseReaddir (if path.drop mount.length = [] then [slash] else path.drop mount.length) offset
  | fuseCreate path mode => fuseCreate (path.drop mount.length) mode
  | fuseReadlink path size => fuseReadlink (path.drop mount.length) size
  | fuseOpen path => fuseOpen (path.drop mount.length)
  | fuseRead path size offset => fuseRead (path.drop mount.length) size offset
  | fuseRelease path => fuseRelease (path.drop mount.length)
  | fuseTruncate path size => fuseTruncate (path.drop mount.length) size
  | fuseWrite path buf offset fh => fuseWrite (path.drop mount.length) buf offset fh
  | fuseUnlink path => fuseUnlink (path.drop mount.length)
  | fuseMkdir path mode => fuseMkdir (path.drop mount.length) mode
  | fuseRmdir path => fuseRmdir (path.drop mount.length)
  | fuseRename fromPath toPath =>
    fuseRename (fromPath.drop mount.length) (toPath.drop mount.length)

/-- What the combined handler answers itself. -/
inductive FuseAnswer where
  | failed (errno : Errno)
  | attributes (mode nlink : Nat)
  | entries (names : List (List Byte))
deriving DecidableEq, Repr

/-- What becomes of a call: a handler gets it, or it is answered. -/
inductive Routed (H : Type) where
  | forwarded (mount : List Byte) (handler : H) (call : FuseCall)
  | answered (answer : FuseAnswer)
deriving DecidableEq, Repr

/-! ## The handlers -/

section Emplace

variable {H : Type}

/-- `std::map::emplace`: an entry of the same key stays. -/
def emplace (mount : List Byte) (handler : H) :
    List (List Byte × H) → List (List Byte × H)
  | [] => [(mount, handler)]
  | entry :: entries =>
    if mount < entry.1 then (mount, handler) :: entry :: entries
    else if mount = entry.1 then entry :: entries
    else entry :: emplace mount handler entries

theorem mem_emplace {mount : List Byte} {handler : H} {entries : List (List Byte × H)}
    {entry : List Byte × H} (member : entry ∈ emplace mount handler entries) :
    entry = (mount, handler) ∨ entry ∈ entries := by
  induction entries with
  | nil => exact Or.inl (List.mem_singleton.mp member)
  | cons first entries ih =>
    rw [emplace] at member
    split_ifs at member
    · exact List.mem_cons.mp member
    · exact Or.inr member
    · rcases List.mem_cons.mp member with here | later
      · exact Or.inr (here ▸ List.mem_cons_self)
      · rcases ih later with new | old
        · exact Or.inl new
        · exact Or.inr (List.mem_cons_of_mem _ old)

/-- The keys are in ascending order. -/
def Sorted (entries : List (List Byte × H)) : Prop := entries.Pairwise fun a b => a.1 < b.1

theorem emplace_sorted {entries : List (List Byte × H)} (mount : List Byte) (handler : H)
    (sorted : Sorted entries) : Sorted (emplace mount handler entries) := by
  induction entries with
  | nil => exact List.pairwise_singleton _ _
  | cons first entries ih =>
    have tail := List.pairwise_cons.mp sorted
    rw [emplace]
    split_ifs with before same
    · refine List.pairwise_cons.mpr ⟨?_, sorted⟩
      intro entry member
      rcases List.mem_cons.mp member with here | later
      · rw [here]
        exact before
      · exact lt_trans before (tail.1 entry later)
    · exact sorted
    · refine List.pairwise_cons.mpr ⟨?_, ih tail.2⟩
      intro entry member
      rcases mem_emplace member with new | old
      · rw [new]
        exact lt_of_le_of_ne (not_lt.mp before) (Ne.symm same)
      · exact tail.1 entry old

end Emplace

/-- `CombinedFuseHandler` with its `std::map` of handlers. -/
structure CombinedFuseHandler (H : Type) where
  handlers : List (List Byte × H)
  sorted : Sorted handlers

namespace CombinedFuseHandler

variable {H : Type}

/-- A `CombinedFuseHandler` without handlers. -/
def empty : CombinedFuseHandler H := ⟨[], List.Pairwise.nil⟩

/-- `addHandler`. -/
def addHandler (combined : CombinedFuseHandler H) (mount : List Byte) (handler : H) :
    CombinedFuseHandler H :=
  ⟨emplace mount handler combined.handlers, emplace_sorted mount handler combined.sorted⟩

/-- `resolveHandler`: the first handler with `path.rfind(handler.first, 0) == 0`. -/
def resolveHandler (combined : CombinedFuseHandler H) (path : List Byte) : Option (List Byte × H) :=
  combined.handlers.find? fun handler => handler.1.isPrefixOf path

/-- The loop of the methods: `call` with the rest of the path goes to the first handler. -/
def forward (combined : CombinedFuseHandler H) (path : List Byte) (call : List Byte → FuseCall)
    (otherwise : FuseAnswer) : Routed H :=
  match combined.resolveHandler path with
  | some (mount, handler) => .forwarded mount handler (call (path.drop mount.length))
  | none => .answered otherwise

/-! ## The methods -/

variable (combined : CombinedFuseHandler H)

def fuseChown (path : List Byte) (uid gid : Nat) : Routed H :=
  combined.forward path (.fuseChown · uid gid) (.failed .enoent)

/-- `fuse_getattr` answers for the root. -/
def fuseGetattr (path : List Byte) : Routed H :=
  if path = [slash] then .answered (.attributes (sIfdir ||| 0o755) 2)
  else combined.forward path .fuseGetattr (.failed .enoent)

/-- `fuse_readdir` passes `/` on in place of an empty path, and lists the mounts in the root. -/
def fuseReaddir (path : List Byte) (offset : Nat) : Routed H :=
  combined.forward path
    (fun subpath => .fuseReaddir (if subpath = [] then [slash] else subpath) offset)
    (if path = [slash] then
      .entries (dotName :: (dotName ++ dotName) :: combined.handlers.map fun h => h.1.drop 1)
    else .entries [])

def fuseCreate (path : List Byte) (mode : Nat) : Routed H :=
  combined.forward path (.fuseCreate · mode) (.failed .enosys)

def fuseReadlink (path : List Byte) (size : Nat) : Routed H :=
  combined.forward path (.fuseReadlink · size) (.failed .enoent)

def fuseOpen (path : List Byte) : Routed H := combined.forward path .fuseOpen (.failed .enoent)

def fuseRead (path : List Byte) (size offset : Nat) : Routed H :=
  combined.forward path (.fuseRead · size offset) (.failed .enoent)

def fuseRelease (path : List Byte) : Routed H :=
  combined.forward path .fuseRelease (.failed .enosys)

def fuseTruncate (path : List Byte) (size : Nat) : Routed H :=
  combined.forward path (.fuseTruncate · size) (.failed .enoent)

def fuseWrite (path buf : List Byte) (offset fh : Nat) : Routed H :=
  combined.forward path (.fuseWrite · buf offset fh) (.failed .enoent)

def fuseUnlink (path : List Byte) : Routed H := combined.forward path .fuseUnlink (.failed .enoent)

def fuseMkdir (path : List Byte) (mode : Nat) : Routed H :=
  combined.forward path (.fuseMkdir · mode) (.failed .enosys)

def fuseRmdir (path : List Byte) : Routed H := combined.forward path .fuseRmdir (.failed .enoent)

/-- `fuse_rename` cannot move files across handlers. -/
def fuseRename (fromPath toPath : List Byte) : Routed H :=
  match combined.resolveHandler fromPath with
  | some (mount, handler) =>
    if mount.isPrefixOf toPath then
      .forwarded mount handler
        (.fuseRename (fromPath.drop mount.length) (toPath.drop mount.length))
    else .answered (.failed .enosys)
  | none => .answered (.failed .enoent)

/-- A call of one of the methods. -/
def call : FuseCall → Routed H
  | .fuseChown path uid gid => combined.fuseChown path uid gid
  | .fuseGetattr path => combined.fuseGetattr path
  | .fuseReaddir path offset => combined.fuseReaddir path offset
  | .fuseCreate path mode => combined.fuseCreate path mode
  | .fuseReadlink path size => combined.fuseReadlink path size
  | .fuseOpen path => combined.fuseOpen path
  | .fuseRead path size offset => combined.fuseRead path size offset
  | .fuseRelease path => combined.fuseRelease path
  | .fuseTruncate path size => combined.fuseTruncate path size
  | .fuseWrite path buf offset fh => combined.fuseWrite path buf offset fh
  | .fuseUnlink path => combined.fuseUnlink path
  | .fuseMkdir path mode => combined.fuseMkdir path mode
  | .fuseRmdir path => combined.fuseRmdir path
  | .fuseRename fromPath toPath => combined.fuseRename fromPath toPath

/-! ## Where a call goes -/

variable {combined} {mount path : List Byte} {handler : H} {c c' : FuseCall}

theorem resolveHandler_some (resolved : combined.resolveHandler path = some (mount, handler)) :
    (mount, handler) ∈ combined.handlers ∧ mount <+: path := by
  have starts : mount.isPrefixOf path = true := by
    have found := List.find?_some resolved
    exact found
  exact ⟨List.mem_of_find?_eq_some resolved, List.isPrefixOf_iff_prefix.mp starts⟩

theorem forward_eq_forwarded_iff {call : List Byte → FuseCall} {otherwise : FuseAnswer} :
    combined.forward path call otherwise = .forwarded mount handler c' ↔
      combined.resolveHandler path = some (mount, handler) ∧ c' = call (path.drop mount.length) := by
  rw [forward]
  split
  · rename_i mount' handler' resolved
    rw [resolved, Option.some_inj, Prod.mk.injEq, Routed.forwarded.injEq]
    refine ⟨?_, ?_⟩
    · intro same
      exact ⟨⟨same.1, same.2.1⟩, by rw [← same.2.2, same.1]⟩
    · intro same
      exact ⟨same.1.1, same.1.2, by rw [same.2, same.1.1]⟩
  · rename_i missing
    rw [missing]
    refine ⟨?_, ?_⟩
    · intro no
      cases no
    · intro no
      cases no.1

variable (combined) in
/-- All but two kinds of calls run through the same loop. -/
theorem call_cases (c : FuseCall) : c = .fuseGetattr [slash] ∨
    (∃ fromPath toPath, c = .fuseRename fromPath toPath) ∨
    c.paths = [c.path] ∧ ∃ call otherwise, combined.call c = combined.forward c.path call otherwise ∧
      ∀ mount, c.below mount = call (c.path.drop mount.length) := by
  cases c with
  | fuseGetattr path =>
    by_cases root : path = [slash]
    · exact Or.inl (by rw [root])
    · refine Or.inr (Or.inr ⟨rfl, .fuseGetattr, .failed .enoent, ?_, fun mount => rfl⟩)
      rw [call, fuseGetattr, if_neg root]
      rfl
  | fuseRename fromPath toPath => exact Or.inr (Or.inl ⟨fromPath, toPath, rfl⟩)
  | fuseReaddir path offset =>
    exact Or.inr (Or.inr ⟨rfl,
      fun subpath => .fuseReaddir (if subpath = [] then [slash] else subpath) offset, _, rfl,
      fun mount => rfl⟩)
  | fuseChown path uid gid =>
    exact Or.inr (Or.inr ⟨rfl, (.fuseChown · uid gid), _, rfl, fun mount => rfl⟩)
  | fuseCreate path mode =>
    exact Or.inr (Or.inr ⟨rfl, (.fuseCreate · mode), _, rfl, fun mount => rfl⟩)
  | fuseReadlink path size =>
    exact Or.inr (Or.inr ⟨rfl, (.fuseReadlink · size), _, rfl, fun mount => rfl⟩)
  | fuseOpen path => exact Or.inr (Or.inr ⟨rfl, .fuseOpen, _, rfl, fun mount => rfl⟩)
  | fuseRead path size offset =>
    exact Or.inr (Or.inr ⟨rfl, (.fuseRead · size offset), _, rfl, fun mount => rfl⟩)
  | fuseRelease path => exact Or.inr (Or.inr ⟨rfl, .fuseRelease, _, rfl, fun mount => rfl⟩)
  | fuseTruncate path size =>
    exact Or.inr (Or.inr ⟨rfl, (.fuseTruncate · size), _, rfl, fun mount => rfl⟩)
  | fuseWrite path buf offset fh =>
    exact Or.inr (Or.inr ⟨rfl, (.fuseWrite · buf offset fh), _, rfl, fun mount => rfl⟩)
  | fuseUnlink path => exact Or.inr (Or.inr ⟨rfl, .fuseUnlink, _, rfl, fun mount => rfl⟩)
  | fuseMkdir path mode =>
    exact Or.inr (Or.inr ⟨rfl, (.fuseMkdir · mode), _, rfl, fun mount => rfl⟩)
  | fuseRmdir path => exact Or.inr (Or.inr ⟨rfl, .fuseRmdir, _, rfl, fun mount => rfl⟩)

/-- A call that is passed on goes to the handler of its first path, which all its paths start
with. -/
theorem call_forwarded (routed : combined.call c = .forwarded mount handler c') :
    combined.resolveHandler c.path = some (mount, handler) ∧ (∀ path ∈ c.paths, mount <+: path) ∧
      c' = c.below mount := by
  rcases call_cases combined c with rfl | ⟨fromPath, toPath, rfl⟩ |
    ⟨single, method, otherwise, same, below⟩
  · cases routed
  · rw [call, fuseRename] at routed
    split at routed
    · rename_i mount' handler' resolved
      split at routed
      · rename_i both
        cases routed
        refine ⟨resolved, ?_, rfl⟩
        intro path member
        rcases List.mem_cons.mp member with first | second
        · rw [first]
          exact (resolveHandler_some resolved).2
        · rw [List.mem_singleton.mp second]
          exact List.isPrefixOf_iff_prefix.mp both
      · cases routed
    · cases routed
  · rw [same, forward_eq_forwarded_iff] at routed
    refine ⟨routed.1, ?_, by rw [below, routed.2]⟩
    intro path member
    rw [single, List.mem_singleton] at member
    rw [member]
    exact (resolveHandler_some routed.1).2

theorem call_of_resolve (resolved : combined.resolveHandler c.path = some (mount, handler))
    (all : ∀ path ∈ c.paths, mount <+: path) (inside : c ≠ .fuseGetattr [slash]) :
    combined.call c = .forwarded mount handler (c.below mount) := by
  rcases call_cases combined c with root | ⟨fromPath, toPath, rfl⟩ |
    ⟨single, method, otherwise, same, below⟩
  · exact absurd root inside
  · have both : mount.isPrefixOf toPath = true :=
      List.isPrefixOf_iff_prefix.mpr (all toPath (List.mem_cons_of_mem _ List.mem_cons_self))
    have first : combined.resolveHandler fromPath = some (mount, handler) := resolved
    simp only [call, fuseRename, first, both, ↓reduceIte, FuseCall.below]
  · rw [same, forward_eq_forwarded_iff]
    exact ⟨resolved, below mount⟩

end CombinedFuseHandler

/-! ## Components -/

/-- A prefix of the form `/name`. -/
def IsMount (mount : List Byte) : Prop :=
  ∃ name, name ≠ [] ∧ slash ∉ name ∧ mount = slash :: name

/-- The path is the mount, or goes on with another component. -/
def IsBelow (mount path : List Byte) : Prop := path = mount ∨ mount ++ [slash] <+: path

variable {mount mount' path : List Byte}

theorem IsBelow.split (below : IsBelow mount path) :
    ∃ subpath, path = mount ++ subpath ∧ (subpath = [] ∨ subpath.head? = some slash) := by
  rcases below with same | ⟨rest, goesOn⟩
  · exact ⟨[], by rw [same, List.append_nil], Or.inl rfl⟩
  · exact ⟨slash :: rest, by rw [← goesOn, List.append_assoc, List.singleton_append], Or.inr rfl⟩

theorem IsBelow.starts (below : IsBelow mount path) : mount <+: path := by
  rcases below.split with ⟨subpath, joined, -⟩
  exact ⟨subpath, joined.symm⟩

/-- What is left of the path behind the mount. -/
theorem IsBelow.drop (below : IsBelow mount path) :
    (path.drop mount.length = [] ∨ (path.drop mount.length).head? = some slash) ∧
      mount ++ path.drop mount.length = path := by
  rcases below.split with ⟨subpath, rfl, shape⟩
  rw [List.drop_left]
  exact ⟨shape, rfl⟩

theorem takeWhile_component {name subpath : List Byte} (whole : slash ∉ name)
    (shape : subpath = [] ∨ subpath.head? = some slash) :
    (name ++ subpath).takeWhile (· ≠ slash) = name := by
  induction name with
  | nil =>
    rw [List.nil_append]
    cases subpath with
    | nil => rfl
    | cons c subpath =>
      have first : c = slash := by
        rcases shape with empty | first
        · cases empty
        · exact Option.some_inj.mp first
      rw [List.takeWhile_cons_of_neg]
      rw [decide_eq_true_eq, not_not]
      exact first
  | cons c name ih =>
    rw [List.mem_cons, not_or] at whole
    rw [List.cons_append, List.takeWhile_cons_of_pos, ih whole.2]
    rw [decide_eq_true_eq]
    exact Ne.symm whole.1

/-- The mount that a path is below of is its first component. -/
theorem IsBelow.mount_eq (below : IsBelow mount path) (form : IsMount mount) :
    mount = slash :: path.tail.takeWhile (· ≠ slash) := by
  rcases below.split with ⟨subpath, rfl, shape⟩
  rcases form with ⟨name, -, whole, rfl⟩
  rw [List.cons_append, List.tail_cons, takeWhile_component whole shape]

theorem sorted_unique {H : Type} {entries : List (List Byte × H)} {handler handler' : H}
    (sorted : Sorted entries) (first : (mount, handler) ∈ entries)
    (second : (mount, handler') ∈ entries) : handler = handler' := by
  induction entries with
  | nil => cases first
  | cons entry entries ih =>
    have tail := List.pairwise_cons.mp sorted
    rcases List.mem_cons.mp first with here | later
    · rcases List.mem_cons.mp second with here' | later'
      · exact (Prod.mk.inj (here.trans here'.symm)).2
      · have before := tail.1 _ later'
        rw [← here] at before
        exact absurd before (lt_irrefl mount)
    · rcases List.mem_cons.mp second with here' | later'
      · have before := tail.1 _ later
        rw [← here'] at before
        exact absurd before (lt_irrefl mount)
      · exact ih tail.2 later later'

namespace CombinedFuseHandler

variable {H : Type} {combined : CombinedFuseHandler H} {handler : H} {c : FuseCall}

/-- No prefix ends within a component of the path. -/
def AtBoundary (combined : CombinedFuseHandler H) (path : List Byte) : Prop :=
  ∀ mount handler, (mount, handler) ∈ combined.handlers → mount <+: path → IsBelow mount path

/-- All prefixes are of the form `/name`. -/
def Mounts (combined : CombinedFuseHandler H) : Prop :=
  ∀ mount handler, (mount, handler) ∈ combined.handlers → IsMount mount

theorem resolveHandler_iff (mounts : combined.Mounts) (boundary : combined.AtBoundary path) :
    combined.resolveHandler path = some (mount, handler) ↔
      (mount, handler) ∈ combined.handlers ∧ IsBelow mount path := by
  refine ⟨?_, ?_⟩
  · intro resolved
    have found := resolveHandler_some resolved
    exact ⟨found.1, boundary mount handler found.1 found.2⟩
  · intro registered
    rcases registered with ⟨member, below⟩
    cases resolved : combined.resolveHandler path with
    | none =>
      have missing := List.find?_eq_none.mp resolved _ member
      exact absurd (List.isPrefixOf_iff_prefix.mpr below.starts) missing
    | some other =>
      -- both mounts are the first component of the path
      rcases other with ⟨mount', handler'⟩
      have found := resolveHandler_some resolved
      have below' := boundary mount' handler' found.1 found.2
      have same : mount' = mount := by
        rw [below'.mount_eq (mounts mount' handler' found.1),
          below.mount_eq (mounts mount handler member)]
      subst same
      rw [sorted_unique combined.sorted found.1 member]

/-- A call goes to the handler whose mount its paths are below of, with the rest of the paths, or
else is answered; `joins` says how the paths are to be found again from the rest. -/
structure RoutesByComponent (combined : CombinedFuseHandler H) (c : FuseCall)
    (joins : List Byte → List Byte → List Byte → Prop) : Prop where
  forwards : ∀ mount handler, (∃ c', combined.call c = .forwarded mount handler c') ↔
    (mount, handler) ∈ combined.handlers ∧ ∀ path ∈ c.paths, IsBelow mount path
  subpaths : ∀ mount handler c', combined.call c = .forwarded mount handler c' →
    List.Forall₂ (fun path subpath => (subpath = [] ∨ subpath.head? = some slash) ∧
      joins mount path subpath) c.paths c'.paths
  answers : (∀ mount handler, (mount, handler) ∈ combined.handlers →
    ∃ path ∈ c.paths, ¬ IsBelow mount path) → ∃ answer, combined.call c = .answered answer
  resolves : ∀ path ∈ c.paths, ∀ mount handler,
    combined.resolveHandler path = some (mount, handler) ↔
      (mount, handler) ∈ combined.handlers ∧ IsBelow mount path

/-- `fuse_readdir` of the mount itself has `/` for the rest; in every other case the prefix and the
rest are the path. -/
def Joins (c : FuseCall) (mount path subpath : List Byte) : Prop :=
  match c with
  | .fuseReaddir _ _ => if path = mount then subpath = [slash] else mount ++ subpath = path
  | _ => mount ++ subpath = path

theorem below_paths (all : ∀ path ∈ c.paths, IsBelow mount path) :
    List.Forall₂ (fun path subpath => (subpath = [] ∨ subpath.head? = some slash) ∧
      Joins c mount path subpath) c.paths (c.below mount).paths := by
  cases c with
  | fuseReaddir path offset =>
    refine .cons ?_ .nil
    rcases (all path List.mem_cons_self).drop with ⟨shape, joined⟩
    rw [Joins]
    by_cases same : path = mount
    · have empty : path.drop mount.length = [] := by
        rw [same]
        exact List.drop_length
      rw [if_pos same, if_pos empty]
      exact ⟨Or.inr rfl, rfl⟩
    · have more : path.drop mount.length ≠ [] := by
        intro empty
        rw [empty, List.append_nil] at joined
        exact same joined.symm
      rw [if_neg same, if_neg more]
      exact ⟨shape, joined⟩
  | fuseRename fromPath toPath =>
    exact .cons (all fromPath List.mem_cons_self).drop
      (.cons (all toPath (List.mem_cons_of_mem _ List.mem_cons_self)).drop .nil)
  | _ => exact .cons (all _ List.mem_cons_self).drop .nil

theorem path_mem_paths (c : FuseCall) : c.path ∈ c.paths := by
  cases c <;> exact List.mem_cons_self

/-- The root is below no mount. -/
theorem not_isBelow_root (form : IsMount mount) : ¬ IsBelow mount [slash] := by
  intro below
  rcases form with ⟨name, nonempty, -, rfl⟩
  have short := below.starts.length_le
  rw [List.length_cons, List.length_singleton] at short
  exact nonempty (List.length_eq_zero_iff.mp (by omega))

/-- Where every prefix that a path starts with ends at a component, exactly the calls whose paths
are all below one mount go there, with the rests of the paths; every other call is answered. -/
theorem routes_by_component (mounts : combined.Mounts)
    (boundary : ∀ path ∈ c.paths, combined.AtBoundary path) :
    combined.RoutesByComponent c (Joins c) := by
  have resolves := fun path member mount handler =>
    @resolveHandler_iff mount path H combined handler mounts (boundary path member)
  have forwarded : ∀ mount handler c', combined.call c = .forwarded mount handler c' →
      (mount, handler) ∈ combined.handlers ∧ (∀ path ∈ c.paths, IsBelow mount path) ∧
        c' = c.below mount := by
    intro mount handler c' routed
    rcases call_forwarded routed with ⟨resolved, all, same⟩
    have member := (resolveHandler_some resolved).1
    exact ⟨member, fun path inside => boundary path inside mount handler member (all path inside), same⟩
  have forwards : ∀ mount handler, (mount, handler) ∈ combined.handlers →
      (∀ path ∈ c.paths, IsBelow mount path) →
      combined.call c = .forwarded mount handler (c.below mount) := by
    intro mount handler member all
    refine call_of_resolve ?_ (fun path inside => (all path inside).starts) ?_
    · exact (resolves c.path (path_mem_paths c) mount handler).mpr
        ⟨member, all c.path (path_mem_paths c)⟩
    · intro root
      subst root
      exact not_isBelow_root (mounts mount handler member) (all [slash] List.mem_cons_self)
  refine ⟨?_, ?_, ?_, resolves⟩
  · intro mount handler
    refine ⟨?_, ?_⟩
    · intro routed
      rcases routed with ⟨c', routed⟩
      have found := forwarded mount handler c' routed
      exact ⟨found.1, found.2.1⟩
    · intro registered
      exact ⟨_, forwards mount handler registered.1 registered.2⟩
  · intro mount handler c' routed
    rcases forwarded mount handler c' routed with ⟨-, all, rfl⟩
    exact below_paths all
  · intro outside
    cases routed : combined.call c with
    | answered answer => exact ⟨answer, rfl⟩
    | forwarded mount handler c' =>
      rcases forwarded mount handler c' routed with ⟨member, all, -⟩
      rcases outside mount handler member with ⟨path, inside, notBelow⟩
      exact absurd (all path inside) notBelow

end CombinedFuseHandler

/-- The mount `/files`. -/
def filesMount : List Byte := [47, 102, 105, 108, 101, 115].map byte

/-- The handlers of a driver that keeps its files in memory. -/
def inMemoryHandlers : CombinedFuseHandler Unit := CombinedFuseHandler.empty.addHandler filesMount ()

theorem inMemoryHandlers_mounts : inMemoryHandlers.Mounts := by
  intro mount handler member
  cases List.mem_singleton.mp member
  exact ⟨filesMount.tail, by decide, by decide, rfl⟩

theorem routes_by_component_file :
    inMemoryHandlers.AtBoundary (filesMount ++ [slash, byte 97]) ∧
      inMemoryHandlers.RoutesByComponent (.fuseOpen (filesMount ++ [slash, byte 97]))
        (CombinedFuseHandler.Joins (.fuseOpen (filesMount ++ [slash, byte 97]))) := by
  have boundary : inMemoryHandlers.AtBoundary (filesMount ++ [slash, byte 97]) := by
    intro mount handler member starts
    cases List.mem_singleton.mp member
    exact Or.inr ⟨[byte 97], rfl⟩
  refine ⟨boundary, CombinedFuseHandler.routes_by_component inMemoryHandlers_mounts ?_⟩
  intro path member
  rw [List.mem_singleton.mp member]
  exact boundary

/-- Listing the mount `/files` passes `/` on, and `/files/` is another path. -/
theorem not_routes_by_component_readdir :
    inMemoryHandlers.Mounts ∧ inMemoryHandlers.AtBoundary filesMount ∧
      inMemoryHandlers.call (.fuseReaddir filesMount 0) =
        .forwarded filesMount () (.fuseReaddir [slash] 0) ∧
      ¬ inMemoryHandlers.RoutesByComponent (.fuseReaddir filesMount 0)
        (fun mount path subpath => mount ++ subpath = path) := by
  have routed : inMemoryHandlers.call (.fuseReaddir filesMount 0) =
      .forwarded filesMount () (.fuseReaddir [slash] 0) := by decide
  refine ⟨inMemoryHandlers_mounts, ?_, routed, ?_⟩
  · intro mount handler member starts
    cases List.mem_singleton.mp member
    exact Or.inl rfl
  · intro routes
    rcases List.forall₂_cons.mp (routes.subpaths _ _ _ routed) with ⟨⟨-, joined⟩, -⟩
    exact absurd joined (by decide)

end MetalFs.Driver.Fuse
