import MetalFs.Filesystem.ExtentRuns

/-!
# Adjacent free extents

`Coalesced` says that no two free extents lie next to each other on the device.  A reservation
that leaves a rest keeps this.  `mtl_free_extent` looks for a neighbour to merge with among the
extents that follow the freed one in LMDB's byte order, so it keeps it only if there is no free
extent right in front of the freed one and if a free one right behind it is found by the cursor:
`FreeMerges`.
-/

namespace MetalFs

open OrderedStore

/-- No free extent is followed by another one. -/
structure Coalesced (extents : OrderedStore Nat Extent) : Prop where
  apart : ∀ {offset extent next}, extents.get offset = some extent → extent.status = .free →
    extents.get (offset + extent.length) = some next → next.status ≠ .free

/-- No free extent ends at `offset`, and a free extent behind the one at `offset` is the next one
in byte order. -/
def FreeMerges (a : Allocator) (offset : Nat) : Prop :=
  (∀ o < offset, ∀ before ∈ a.extents.get o, before.status = .free → o + before.length ≠ offset) ∧
    ∀ extent ∈ a.extents.get offset, ∀ next ∈ a.extents.get (offset + extent.length),
      next.status = .free → a.extents.next offsetBytes offset = some (offset + extent.length, next)

/-- What the call frees finds its free neighbours. -/
def AllocOp.Merges (a : Allocator) : AllocOp → Prop
  | reserve _ _ _ => True
  | truncate offset len => ∀ extent ∈ a.extents.get offset,
    (len = 0 → FreeMerges a offset) ∧
      (0 < len → len < extent.length →
        FreeMerges ⟨truncatedExtents a offset len extent, a.heap⟩ (offset + len))
  | free offset => FreeMerges a offset

instance (a : Allocator) (offset : Nat) : Decidable (FreeMerges a offset) :=
  inferInstanceAs (Decidable (_ ∧ ∀ extent ∈ _, ∀ next ∈ _, _))

instance (a : Allocator) (op : AllocOp) : Decidable (op.Merges a) :=
  match op with
  | .reserve _ _ _ => inferInstanceAs (Decidable True)
  | .truncate _ _ => inferInstanceAs (Decidable (∀ extent ∈ _, (_ → FreeMerges _ _) ∧
      (_ → _ → FreeMerges _ _)))
  | .free offset => inferInstanceAs (Decidable (FreeMerges a offset))

namespace Coalesced

variable {extents : OrderedStore Nat Extent} {offset n : Nat} {e : Extent}

/-- An extent that is not free separates its neighbours. -/
theorem put (coalesced : Coalesced extents) (notFree : e.status ≠ .free) :
    Coalesced (extents.put offset e) := by
  constructor
  intro o x y found free following
  rw [get_put] at found following
  split at found
  · cases found
    exact absurd free notFree
  · split at following
    · cases following
      exact notFree
    · exact coalesced.apart found free following

theorem del (coalesced : Coalesced extents) : Coalesced (extents.del offset) := by
  constructor
  intro o x y found free following
  rw [get_del] at found following
  split at found
  · cases found
  · split at following
    · cases following
    · exact coalesced.apart found free following

/-- A free extent may be put where no other one ends and none begins behind it. -/
theorem put_free (coalesced : Coalesced extents) (positive : 0 < n) {node : HeapNodeId}
    (front : ∀ {o x}, extents.get o = some x → x.status = .free → o ≠ offset →
      o + x.length ≠ offset)
    (back : ∀ {y}, extents.get (offset + n) = some y → y.status ≠ .free) :
    Coalesced (extents.put offset ⟨n, .free, node⟩) := by
  constructor
  intro o x y found free following
  rw [get_put] at found following
  split at found
  · rename_i same
    subst same
    cases found
    have behind : o + n ≠ o := by omega
    rw [if_neg behind] at following
    exact back following
  · rename_i other
    rw [if_neg (front found free other)] at following
    exact coalesced.apart found free following

theorem initial {N : Nat} (positive : 1 ≤ N) : Coalesced (freshAllocator N).extents := by
  have absent : ∀ x, (∅ : OrderedStore Nat Extent).get x = none := fun _ => rfl
  have empty : Coalesced ∅ := by
    constructor
    intro o x y found
    rw [absent] at found
    cases found
  refine empty.put_free positive ?_ ?_
  · intro o x found
    rw [absent] at found
    cases found
  · intro y found
    rw [absent] at found
    cases found

end Coalesced

variable {a : Allocator} {N offset size : Nat} {e next : Extent}

/-! ## What one call does -/

theorem Coalesced.reservedFresh (coalesced : Coalesced a.extents) (inv : a.Inv N)
    (positive : 0 < size) (stored : a.extents.get offset = some e) (free : e.status = .free)
    (commit : Bool) : Coalesced (reservedFresh a offset e size commit).2.2.extents := by
  have notFree := commitStatus_ne_free commit
  by_cases cut : size < e.length
  · simp only [MetalFs.reservedFresh, if_pos cut]
    refine Coalesced.put (coalesced.put_free (by omega) ?_ ?_) notFree
    · intro o x found _ _ ends
      have low := inv.pos found
      have same := inv.tiling.eq_of_mem (pieces_of_get found) (pieces_of_get stored)
        (show o ≤ offset + size - 1 by omega) (by omega) (by omega) (by omega)
      subst same
      rw [stored] at found
      cases found
      omega
    · intro y following
      rw [show offset + size + (e.length - size) = offset + e.length by omega] at following
      exact coalesced.apart stored free following
  · simp only [MetalFs.reservedFresh, if_neg cut]
    exact coalesced.put notFree

theorem Coalesced.reservedInPlace (coalesced : Coalesced a.extents) (inv : a.Inv N) {total : Nat}
    (stored : a.extents.get offset = some e) (notFree : e.status ≠ .free)
    (following : a.extents.get (offset + e.length) = some next) (free : next.status = .free)
    (positive : 0 < total) (cut : total < e.length + next.length) (commit : Bool) :
    Coalesced (reservedInPlace a offset e next.length total commit).extents := by
  refine Coalesced.put (coalesced.del.put_free (by omega) ?_ ?_) (commitStatus_ne_free commit)
  · intro o x found isFree _ ends
    rw [get_del] at found
    split at found
    · cases found
    · rename_i notNext
      have low := inv.pos found
      -- The last block of `x` is in the extent that grows or in the one behind it.
      rcases Nat.lt_or_ge (offset + total - 1) (offset + e.length) with inside | behind
      · have same := inv.tiling.eq_of_mem (pieces_of_get found) (pieces_of_get stored)
          (show o ≤ offset + total - 1 by omega) (by omega) (by omega) (by omega)
        subst same
        rw [stored] at found
        cases found
        exact notFree isFree
      · exact notNext (inv.tiling.eq_of_mem (pieces_of_get found) (pieces_of_get following)
          (show o ≤ offset + total - 1 by omega) (by omega) (by omega) (by omega))
  · intro y found
    rw [get_del] at found
    split at found
    · cases found
    · rw [show offset + total + (e.length + next.length - total) =
        offset + e.length + next.length by omega] at found
      exact coalesced.apart following free found

/-- `mtl_reserve_extent` keeps free extents apart. -/
theorem mtlReserveExtent_coalesced (inv : a.Inv N) (bound : N < 2 ^ 64) (positive : 1 ≤ size)
    (small : size < 2 ^ 64) {lastExtent : Option FileExtent} (commit : Bool)
    (lastAllocated : ∀ last ∈ lastExtent, a.Allocated last.offset last.length)
    (ok : ReserveOk a size lastExtent) (coalesced : Coalesced a.extents)
    {r : Nat × Option Nat × Allocator}
    (returned : mtlReserveExtent a size lastExtent commit = some r) : Coalesced r.2.2.extents := by
  rcases mtlReserveExtent_cases inv bound small commit lastAllocated ok with
    ⟨none, -⟩ | ⟨offset, e, stored, free, fresh⟩ |
      ⟨last, e, next, isLast, stored, notFree, length, following, free, inPlace⟩
  · rw [none] at returned
    cases returned
    exact coalesced
  · rw [fresh] at returned
    cases returned
    exact coalesced.reservedFresh inv positive stored free commit
  · obtain ⟨low, cut⟩ := ok last isLast next following free
    rw [inPlace] at returned
    cases returned
    rw [← length] at following low cut ⊢
    exact coalesced.reservedInPlace inv stored notFree following free low cut commit

/-- `mtl_free_extent` keeps free extents apart where it finds the free neighbours. -/
theorem mtlFreeExtent_coalesced (inv : a.Inv N) (bound : N < 2 ^ 64)
    (stored : a.extents.get offset = some e) (ok : FreeOk a offset)
    (merges : FreeMerges a offset) (coalesced : Coalesced a.extents) {a' : Allocator}
    (returned : mtlFreeExtent a offset = some a') : Coalesced a'.extents := by
  have front : ∀ {o x}, a.extents.get o = some x → x.status = .free → o ≠ offset →
      o + x.length ≠ offset := by
    intro o x found free other ends
    have low := inv.pos found
    exact merges.1 o (by omega) x found free ends
  have low := inv.pos stored
  rcases mtlFreeExtent_cases inv bound stored ok with
    ⟨alone, unmerged⟩ | ⟨next, following, free, merged⟩
  · rw [alone] at returned
    cases returned
    refine coalesced.put_free low front ?_
    intro y following free
    exact unmerged _ (merges.2 e stored y following free) free
  · rw [merged] at returned
    cases returned
    refine coalesced.del.put_free (by omega) ?_ ?_
    · intro o x found
      rw [get_del] at found
      split at found
      · cases found
      · exact front found
    · intro y found
      rw [get_del] at found
      split at found
      · cases found
      · rw [← Nat.add_assoc] at found
        exact coalesced.apart following free found

/-- `mtl_truncate_extent` keeps free extents apart where the part that is cut off finds the free
extent behind it. -/
theorem mtlTruncateExtent_coalesced (inv : a.Inv N) (bound : N < 2 ^ 64) {len : Nat}
    (stored : a.extents.get offset = some e) (notFree : e.status ≠ .free)
    (ok : TruncateOk a offset len) (merges : AllocOp.Merges a (.truncate offset len))
    (coalesced : Coalesced a.extents) {a' : Allocator}
    (returned : mtlTruncateExtent a offset len = some a') : Coalesced a'.extents := by
  obtain ⟨short, whenZero, whenCut⟩ := ok e stored
  obtain ⟨mergesZero, mergesCut⟩ := merges e stored
  rcases Nat.eq_zero_or_pos len with rfl | low
  · rw [mtlTruncateExtent, if_pos rfl] at returned
    exact mtlFreeExtent_coalesced inv bound stored (whenZero rfl) (mergesZero rfl) coalesced returned
  · have nonzero : len ≠ 0 := by omega
    rcases Nat.lt_or_ge len e.length with high | full
    · have inside := inv.le stored
      have offsetEq : u64 (offset + len) = offset + len := u64_of_lt (by omega)
      have rest : (truncatedExtents a offset len e).get (offset + len) =
          some ⟨e.length - len, .reserved, invalidNode⟩ := by
        rw [truncatedExtents, offsetEq, get_put_self]
      have freed : mtlFreeExtent ⟨truncatedExtents a offset len e, a.heap⟩ (offset + len) =
          some a' := by
        simpa only [mtlTruncateExtent, if_neg nonzero, stored, Option.bind_eq_bind,
          Option.bind_some, if_pos high, offsetEq, truncatedExtents] using returned
      have cut : Coalesced (truncatedExtents a offset len e) :=
        (coalesced.put (by simp)).put reserved_ne_free
      exact mtlFreeExtent_coalesced (truncatedExtents_inv inv bound stored notFree low high) bound
        rest (whenCut low high) (mergesCut low high) cut freed
    · simp only [mtlTruncateExtent, if_neg nonzero, stored, Option.bind_eq_bind,
        Option.bind_some, if_neg (Nat.not_lt.mpr full)] at returned
      cases returned
      exact coalesced.put (by simp)

/-! ## Whole runs -/

/-- An admissible call that is `Ok` and finds its neighbours keeps free extents apart. -/
theorem AllocOp.step_coalesced (inv : a.Inv N) (bound : N < 2 ^ 64) {op : AllocOp}
    (admissible : op.Admissible a) (ok : op.Ok a) (merges : op.Merges a)
    (coalesced : Coalesced a.extents) {a' : Allocator} (returned : op.step a = some a') :
    Coalesced a'.extents := by
  cases op with
  | reserve size lastExtent commit =>
    obtain ⟨positive, small, lastAllocated⟩ := admissible
    obtain ⟨r, reserved, rfl⟩ := Option.map_eq_some_iff.mp returned
    exact mtlReserveExtent_coalesced inv bound positive small commit lastAllocated ok coalesced
      reserved
  | truncate offset len =>
    obtain ⟨_, _, e, stored, notFree, _⟩ := admissible
    exact mtlTruncateExtent_coalesced inv bound stored notFree ok merges coalesced returned
  | free offset =>
    obtain ⟨_, e, stored, _⟩ := admissible
    exact mtlFreeExtent_coalesced inv bound stored ok merges coalesced returned

/-- Every allocated extent has been freed. -/
def Allocator.AllFree (a : Allocator) : Prop :=
  ∀ offset e, a.extents.get offset = some e → e.status = .free

/-- If everything is free, it is one extent. -/
theorem Coalesced.single (coalesced : Coalesced a.extents) (inv : a.Inv N) (allFree : a.AllFree)
    (stored : a.extents.get offset = some e) : offset = 0 ∧ e.length = N := by
  have inside := inv.le stored
  have low := inv.pos stored
  obtain ⟨o, n, piece, first, before⟩ := inv.tiling.covered (show 0 < N by omega)
  obtain rfl : o = 0 := by omega
  obtain ⟨x, found, rfl⟩ := Option.map_eq_some_iff.mp piece
  have whole : x.length = N := by
    rcases Nat.lt_or_ge (0 + x.length) N with short | full
    · obtain ⟨n', next⟩ := inv.tiling.exists_next piece short
      obtain ⟨y, following, rfl⟩ := Option.map_eq_some_iff.mp next
      exact absurd (allFree _ _ following) (coalesced.apart found (allFree _ _ found) following)
    · have inside := inv.le found
      omega
  obtain rfl := inv.tiling.eq_of_mem (pieces_of_get stored) piece (le_refl _) (by omega)
    (Nat.zero_le _) (by omega)
  rw [found] at stored
  cases stored
  exact ⟨rfl, whole⟩

/-- If everything is free, one reservation gets all blocks. -/
theorem mtlReserveExtent_all (inv : a.Inv N) (positive : 1 ≤ N) (bound : N < 2 ^ 64)
    (coalesced : Coalesced a.extents) (allFree : a.AllFree) (commit : Bool) :
    ∃ a', mtlReserveExtent a N none commit = some (N, some 0, a') := by
  have lastAllocated : ∀ last ∈ (none : Option FileExtent), a.Allocated last.offset last.length := by
    intro last isLast
    cases isLast
  have alone : ¬ FollowedByFree a none := by
    rintro ⟨last, isLast, -⟩
    cases isLast
  rcases mtlReserveExtent_of_not_followed inv bound bound commit lastAllocated alone with
    ⟨-, none⟩ | ⟨offset, e, stored, -, returned⟩
  · obtain ⟨o, n, piece, -⟩ := inv.tiling.covered (show 0 < N by omega)
    obtain ⟨x, found, rfl⟩ := Option.map_eq_some_iff.mp piece
    exact absurd (allFree o x found) (none o x found)
  · obtain ⟨rfl, length⟩ := coalesced.single inv allFree stored
    rw [reservedFresh, if_neg (by omega), length] at returned
    exact ⟨_, returned⟩

/-- In every run of admissible calls in which no branch loses blocks and every freed extent finds
its free neighbours, no two free extents are adjacent; once everything is free, one reservation
gets all blocks. -/
theorem coalesced_of_run {N : Nat} (positive : 1 ≤ N) (bound : N < 2 ^ 64) {ops : List AllocOp}
    (steps : Runs.Steps AllocOp.step (fun a op => op.Admissible a ∧ op.Ok a ∧ op.Merges a)
      (freshAllocator N) ops) :
    ∃ a, Runs.run AllocOp.step (freshAllocator N) ops = some a ∧ Coalesced a.extents ∧
      (a.AllFree → ∀ commit, ∃ a', mtlReserveExtent a N none commit = some (N, some 0, a')) := by
  obtain ⟨a, finished, inv, coalesced⟩ := Runs.run_of_steps
    (I := fun a => a.Inv N ∧ Coalesced a.extents) (fun {a op} kept allowed => by
      obtain ⟨a', returned, inv'⟩ := AllocOp.step_inv kept.1 bound allowed.1 allowed.2.1
      exact ⟨a', returned, inv', AllocOp.step_coalesced kept.1 bound allowed.1 allowed.2.1
        allowed.2.2 kept.2 returned⟩)
    ⟨Allocator.Inv.initial positive, Coalesced.initial positive⟩ steps
  exact ⟨a, finished, coalesced, mtlReserveExtent_all inv positive bound coalesced⟩

theorem coalesced_of_reuseRun :
    ∃ a, Runs.run AllocOp.step (freshAllocator 12) reuseRun = some a ∧ Coalesced a.extents ∧
      (a.AllFree → ∀ commit, ∃ a', mtlReserveExtent a 12 none commit = some (12, some 0, a')) :=
  coalesced_of_run (by decide) (by decide) (by decide)

/-- Two extents of one block each, freed in the order of their offsets. -/
def separateRun : List AllocOp :=
  [.reserve 1 none true, .reserve 1 none true, .free 0, .free 1]

/-- The second extent is not merged with the free one in front of it. -/
theorem separateRun_not_coalesced :
    Runs.Steps AllocOp.step (fun a op => op.Admissible a) (freshAllocator 2) separateRun ∧
      ∃ a, Runs.run AllocOp.step (freshAllocator 2) separateRun = some a ∧ a.AllFree ∧
        ¬ Coalesced a.extents ∧
        ∀ commit, ¬ ∃ a', mtlReserveExtent a 2 none commit = some (2, some 0, a') := by
  refine ⟨by decide, ?_⟩
  obtain ⟨a, reached, entries, front, back, short⟩ : ∃ a,
      Runs.run AllocOp.step (freshAllocator 2) separateRun = some a ∧
        (∀ x ∈ a.extents.entries, x.2.status = .free) ∧
        a.extents.get 0 = some ⟨1, .free, ⟨1, 0⟩⟩ ∧ a.extents.get 1 = some ⟨1, .free, ⟨1, 1⟩⟩ ∧
        ∀ commit, (mtlReserveExtent a 2 none commit).map Prod.fst = some 1 := by decide
  refine ⟨a, reached, ?_, ?_, ?_⟩
  · intro offset e stored
    exact entries _ (mem_entries_of_get.mp stored)
  · intro coalesced
    exact coalesced.apart front rfl back rfl
  · rintro commit ⟨a', returned⟩
    have first := short commit
    rw [returned] at first
    cases first

end MetalFs
