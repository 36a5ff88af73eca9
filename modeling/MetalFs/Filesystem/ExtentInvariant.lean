import MetalFs.Filesystem.Extent

/-!
# The allocator invariant

`Allocator.Inv a N` is the invariant of the block allocator: the extents are an
exact partition of the blocks `[0, N)`, and the heap lists exactly the free
extents, each under the node id the extent stores.

Every allocator function is a composition of four moves, each of which keeps the
invariant: take a free extent out of the heap (`Inv.take`), cut an allocated one
in two (`Inv.split`), join two adjacent allocated ones (`Inv.merge`), and list an
allocated one as free (`Inv.release`).  The invariant only reads the databases
through their lookups (`Inv.congr`), so the order in which the code performs the
updates does not matter.  `Allocator.Loose` is what is left of it when blocks have been lost.
-/

namespace MetalFs

open OrderedStore

/-- The extents as intervals of blocks. -/
def pieces (extents : OrderedStore Nat Extent) (offset : Nat) : Option Nat :=
  (extents.get offset).map Extent.length

theorem pieces_of_get {extents : OrderedStore Nat Extent} {offset : Nat} {extent : Extent}
    (found : extents.get offset = some extent) :
    pieces extents offset = some extent.length := by
  simp only [pieces, found, Option.map_some]

theorem pieces_put (extents : OrderedStore Nat Extent) (offset : Nat) (extent : Extent) :
    pieces (extents.put offset extent) =
      Function.update (pieces extents) offset (some extent.length) := by
  funext x
  by_cases same : x = offset
  · subst same
    simp only [pieces, get_put, if_true, Option.map_some, Function.update_self]
  · rw [Function.update_of_ne same]
    simp only [pieces, get_put, if_neg same]

theorem pieces_del (extents : OrderedStore Nat Extent) (offset : Nat) :
    pieces (extents.del offset) = Function.update (pieces extents) offset none := by
  funext x
  by_cases same : x = offset
  · subst same
    simp only [pieces, get_del, if_true, Option.map_none, Function.update_self]
  · rw [Function.update_of_ne same]
    simp only [pieces, get_del, if_neg same]

/-- The extents are an exact partition of the blocks `[0, N)` and the heap lists
exactly the free ones. -/
structure Allocator.Inv (a : Allocator) (N : Nat) : Prop where
  tiling : Tiling (pieces a.extents) N
  listed : ∀ {offset extent}, a.extents.get offset = some extent →
    extent.status = .free →
      extent.pqNode = ⟨extent.length, offset⟩ ∧
        a.heap.get ⟨extent.length, offset⟩ = some offset
  only : ∀ {id value}, a.heap.get id = some value →
    ∃ extent, a.extents.get value = some extent ∧ extent.status = .free ∧
      id = ⟨extent.length, value⟩

/-- An extent of `n` blocks is stored at `offset` and is not free. -/
def Allocator.Allocated (a : Allocator) (offset n : Nat) : Prop :=
  ∃ extent, a.extents.get offset = some extent ∧ extent.status ≠ .free ∧ extent.length = n

namespace Allocator.Inv

variable {a b : Allocator} {N offset : Nat} {extent : Extent}

theorem pos (inv : Inv a N) (found : a.extents.get offset = some extent) :
    0 < extent.length :=
  inv.tiling.pos (pieces_of_get found)

theorem le (inv : Inv a N) (found : a.extents.get offset = some extent) :
    offset + extent.length ≤ N :=
  inv.tiling.le (pieces_of_get found)

theorem get_eq_none_of_inside (inv : Inv a N) (found : a.extents.get offset = some extent)
    {x : Nat} (after : offset < x) (before : x < offset + extent.length) :
    a.extents.get x = none := by
  have outside := inv.tiling.eq_none_of_inside (pieces_of_get found) after before
  simpa only [pieces, Option.map_eq_none_iff] using outside

/-- The invariant only depends on what the two databases return. -/
theorem congr (inv : Inv a N) (extents : ∀ x, b.extents.get x = a.extents.get x)
    (heap : ∀ id, b.heap.get id = a.heap.get id) : Inv b N := by
  have same : pieces b.extents = pieces a.extents := by
    funext x
    simp only [pieces, extents]
  constructor
  · rw [same]
    exact inv.tiling
  · intro offset extent found free
    rw [extents] at found
    rw [heap]
    exact inv.listed found free
  · intro id value found
    rw [heap] at found
    obtain ⟨extent, stored, free, node⟩ := inv.only found
    exact ⟨extent, by rw [extents]; exact stored, free, node⟩

end Allocator.Inv

/-! ## Without the partition -/

/-- What is left of the invariant when blocks have been lost: the extents are non-empty, lie on
the device and are disjoint, and the heap lists exactly the free ones. -/
structure Allocator.Loose (a : Allocator) (N : Nat) : Prop where
  pos : ∀ {offset extent}, a.extents.get offset = some extent → 0 < extent.length
  le : ∀ {offset extent}, a.extents.get offset = some extent → offset + extent.length ≤ N
  disjoint : ∀ {offset extent offset' extent'}, a.extents.get offset = some extent →
    a.extents.get offset' = some extent' → offset < offset' → offset + extent.length ≤ offset'
  listed : ∀ {offset extent}, a.extents.get offset = some extent →
    extent.status = .free →
      extent.pqNode = ⟨extent.length, offset⟩ ∧
        a.heap.get ⟨extent.length, offset⟩ = some offset
  only : ∀ {id value}, a.heap.get id = some value →
    ∃ extent, a.extents.get value = some extent ∧ extent.status = .free ∧
      id = ⟨extent.length, value⟩

theorem Allocator.Inv.loose {a : Allocator} {N : Nat} (inv : a.Inv N) : a.Loose N :=
  ⟨inv.pos, inv.le,
    fun found found' before => inv.tiling.disjoint (pieces_of_get found) (pieces_of_get found') before,
    inv.listed, inv.only⟩

namespace Allocator.Loose

variable {a : Allocator} {N offset : Nat} {extent : Extent}

theorem get_eq_none_of_inside (loose : Loose a N) (found : a.extents.get offset = some extent)
    {x : Nat} (after : offset < x) (before : x < offset + extent.length) :
    a.extents.get x = none := by
  cases inner : a.extents.get x with
  | none => rfl
  | some e =>
    have apart := loose.disjoint found inner after
    omega

/-- Only the free extents have to be looked at where no extent is new or longer. -/
theorem of_kept {b : Allocator} (loose : Loose a N)
    (kept : ∀ {o x}, b.extents.get o = some x → ∃ y, a.extents.get o = some y ∧ y.length = x.length)
    (listed : ∀ {o x}, b.extents.get o = some x → x.status = .free →
      x.pqNode = ⟨x.length, o⟩ ∧ b.heap.get ⟨x.length, o⟩ = some o)
    (only : ∀ {id value}, b.heap.get id = some value →
      ∃ x, b.extents.get value = some x ∧ x.status = .free ∧ id = ⟨x.length, value⟩) :
    Loose b N := by
  refine ⟨?_, ?_, ?_, listed, only⟩
  · intro o x stored
    obtain ⟨y, stored', same⟩ := kept stored
    rw [← same]
    exact loose.pos stored'
  · intro o x stored
    obtain ⟨y, stored', same⟩ := kept stored
    rw [← same]
    exact loose.le stored'
  · intro o x o' x' stored stored' before
    obtain ⟨y, old, same⟩ := kept stored
    obtain ⟨y', old', -⟩ := kept stored'
    rw [← same]
    exact loose.disjoint old old' before

/-- A free extent is taken out of the heap. -/
theorem take (loose : Loose a N) (found : a.extents.get offset = some extent)
    (taken : Extent) (allocated : taken.status ≠ .free) (length : taken.length = extent.length) :
    Loose ⟨a.extents.put offset taken, a.heap.del ⟨extent.length, offset⟩⟩ N := by
  refine loose.of_kept ?_ ?_ ?_
  · intro o x stored
    simp only [get_put] at stored
    split at stored
    · rename_i same
      subst same
      cases stored
      exact ⟨extent, found, length.symm⟩
    · exact ⟨x, stored, rfl⟩
  · intro o x stored isFree
    simp only [get_put] at stored
    split at stored
    · cases stored
      exact absurd isFree allocated
    · rename_i other
      obtain ⟨node, inHeap⟩ := loose.listed stored isFree
      refine ⟨node, ?_⟩
      rw [get_del, if_neg (by simp [other]), inHeap]
  · intro id value inHeap
    simp only [get_del] at inHeap
    split at inHeap
    · cases inHeap
    · rename_i kept
      obtain ⟨x, stored, isFree, rfl⟩ := loose.only inHeap
      have other : value ≠ offset := by
        rintro rfl
        rw [found] at stored
        cases stored
        exact kept rfl
      exact ⟨x, by rw [get_put, if_neg other]; exact stored, isFree, rfl⟩

end Allocator.Loose

namespace Allocator.Inv

variable {a b : Allocator} {N offset : Nat} {extent : Extent}

/-! ## The four moves -/

/-- Take a free extent out of the heap. -/
theorem take (inv : Inv a N) (found : a.extents.get offset = some extent)
    (taken : Extent) (allocated : taken.status ≠ .free) (length : taken.length = extent.length) :
    Inv ⟨a.extents.put offset taken, a.heap.del ⟨extent.length, offset⟩⟩ N := by
  have loose := inv.loose.take found taken allocated length
  have same : pieces (a.extents.put offset taken) = pieces a.extents := by
    rw [pieces_put, length, ← pieces_of_get found, Function.update_eq_self]
  refine ⟨?_, loose.listed, loose.only⟩
  rw [same]
  exact inv.tiling

/-- List an allocated extent as free. -/
theorem release (inv : Inv a N) (found : a.extents.get offset = some extent)
    (allocated : extent.status ≠ .free) :
    Inv ⟨a.extents.put offset ⟨extent.length, .free, ⟨extent.length, offset⟩⟩,
      a.heap.put ⟨extent.length, offset⟩ offset⟩ N := by
  constructor
  · have same : pieces (a.extents.put offset
        ⟨extent.length, .free, ⟨extent.length, offset⟩⟩) = pieces a.extents := by
      rw [pieces_put, ← pieces_of_get found, Function.update_eq_self]
    rw [same]
    exact inv.tiling
  · intro x e stored isFree
    simp only [get_put] at stored
    split at stored
    · rename_i same
      cases stored
      subst same
      exact ⟨rfl, by rw [get_put, if_pos rfl]⟩
    · rename_i other
      obtain ⟨node, inHeap⟩ := inv.listed stored isFree
      refine ⟨node, ?_⟩
      rw [get_put, if_neg (by simp [other]), inHeap]
  · intro id value inHeap
    simp only [get_put] at inHeap
    split at inHeap
    · rename_i same
      cases inHeap
      exact ⟨⟨extent.length, .free, ⟨extent.length, offset⟩⟩,
        by rw [get_put, if_pos rfl], rfl, same⟩
    · obtain ⟨e, stored, isFree, node⟩ := inv.only inHeap
      have other : value ≠ offset := by
        rintro rfl
        rw [found] at stored
        cases stored
        exact allocated isFree
      exact ⟨e, by rw [get_put, if_neg other]; exact stored, isFree, node⟩

/-- Cut an allocated extent in two allocated ones. -/
theorem split (inv : Inv a N) (found : a.extents.get offset = some extent)
    (allocated : extent.status ≠ .free) (first second : Extent) (low : 0 < first.length)
    (high : first.length < extent.length) (rest : second.length = extent.length - first.length)
    (firstAllocated : first.status ≠ .free) (secondAllocated : second.status ≠ .free) :
    Inv ⟨(a.extents.put offset first).put (offset + first.length) second, a.heap⟩ N := by
  have inside := inv.get_eq_none_of_inside found (x := offset + first.length)
    (by omega) (by omega)
  constructor
  · rw [pieces_put, pieces_put, rest]
    exact inv.tiling.split (pieces_of_get found) low high
  · intro x e stored isFree
    simp only [get_put] at stored
    split at stored
    · cases stored
      exact absurd isFree secondAllocated
    · split at stored
      · cases stored
        exact absurd isFree firstAllocated
      · exact inv.listed stored isFree
  · intro id value inHeap
    obtain ⟨e, stored, isFree, node⟩ := inv.only inHeap
    have other : value ≠ offset := by
      rintro rfl
      rw [found] at stored
      cases stored
      exact allocated isFree
    have notInside : value ≠ offset + first.length := by
      rintro rfl
      rw [inside] at stored
      cases stored
    refine ⟨e, ?_, isFree, node⟩
    rw [get_put, if_neg notInside, get_put, if_neg other]
    exact stored

/-- Join an allocated extent with the allocated one behind it. -/
theorem merge (inv : Inv a N) (found : a.extents.get offset = some extent)
    (allocated : extent.status ≠ .free) {next : Extent}
    (following : a.extents.get (offset + extent.length) = some next)
    (nextAllocated : next.status ≠ .free) (joined : Extent)
    (length : joined.length = extent.length + next.length) (joinedAllocated : joined.status ≠ .free) :
    Inv ⟨(a.extents.del (offset + extent.length)).put offset joined, a.heap⟩ N := by
  constructor
  · rw [pieces_put, pieces_del, length]
    exact inv.tiling.merge (pieces_of_get found) (pieces_of_get following)
  · intro x e stored isFree
    simp only [get_put] at stored
    split at stored
    · cases stored
      exact absurd isFree joinedAllocated
    · simp only [get_del] at stored
      split at stored
      · cases stored
      · exact inv.listed stored isFree
  · intro id value inHeap
    obtain ⟨e, stored, isFree, node⟩ := inv.only inHeap
    have other : value ≠ offset := by
      rintro rfl
      rw [found] at stored
      cases stored
      exact allocated isFree
    have notNext : value ≠ offset + extent.length := by
      rintro rfl
      rw [following] at stored
      cases stored
      exact nextAllocated isFree
    refine ⟨e, ?_, isFree, node⟩
    rw [get_put, if_neg other, get_del, if_neg notNext]
    exact stored

/-- A freshly initialised allocator has one free extent of all blocks. -/
theorem initial (positive : 0 < N) : Inv (mtlInitializeExtents ⟨∅, ∅⟩ N) N := by
  have state : mtlInitializeExtents ⟨∅, ∅⟩ N =
      ⟨(∅ : OrderedStore Nat Extent).put 0 ⟨N, .free, ⟨N, 0⟩⟩,
        (∅ : Heap).put ⟨N, 0⟩ 0⟩ := rfl
  rw [state]
  constructor
  · have none : pieces ∅ = fun _ => none := rfl
    rw [pieces_put, none]
    exact Tiling.single positive
  · intro x e stored _
    simp only [get_put] at stored
    split at stored
    · rename_i same
      cases stored
      subst same
      exact ⟨rfl, by rw [get_put, if_pos rfl]⟩
    · cases stored
  · intro id value inHeap
    simp only [get_put] at inHeap
    split at inHeap
    · rename_i same
      cases inHeap
      exact ⟨⟨N, .free, ⟨N, 0⟩⟩, by rw [get_put, if_pos rfl], rfl, same⟩
    · cases inHeap

end Allocator.Inv

end MetalFs
