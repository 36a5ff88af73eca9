import MetalFs.Filesystem.ExtentInvariant

/-!
# What the allocator functions do

One specification for each function of `extent.c`, from any state that satisfies
`Allocator.Inv`.  `ReserveOk` and `FreeOk` are the states in which
`mtl_reserve_extent` and `mtl_free_extent` keep the invariant:

* an extent that is grown in place must not use up the whole free extent behind
  it, because then its stored length is not updated;
* the extent that follows the freed one in LMDB's byte order must not be free,
  unless it is the one physically behind it and is not followed by another free
  one, because the cursor never steps back and does not know physical order.
-/

namespace MetalFs

open OrderedStore

/-- The number of blocks an extent adds to the free ones. -/
def freeLength (extent : Extent) : Nat := if extent.status = .free then extent.length else 0

theorem freeLength_of_free {extent : Extent} (free : extent.status = .free) :
    freeLength extent = extent.length := if_pos free

theorem freeLength_of_ne {extent : Extent} (notFree : extent.status ≠ .free) :
    freeLength extent = 0 := if_neg notFree

theorem freeLength_mk_free (n : Nat) (node : HeapNodeId) : freeLength ⟨n, .free, node⟩ = n := rfl

theorem freeLength_mk_committed (n : Nat) (node : HeapNodeId) :
    freeLength ⟨n, .committed, node⟩ = 0 := rfl

/-- The number of blocks in free extents. -/
def Allocator.freeBlocks (a : Allocator) : Nat := weight freeLength a.extents

/-- Growing `lastExtent` in place leaves a part of the free extent behind it. -/
def ReserveOk (a : Allocator) (size : Nat) (lastExtent : Option FileExtent) : Prop :=
  ∀ last ∈ lastExtent, ∀ next ∈ a.extents.get (last.offset + last.length),
    next.status = .free →
      0 < u64 (last.length + size) ∧ u64 (last.length + size) < last.length + next.length

/-- The extent behind `offset` in byte order is not free, or it is the one behind
it on the device and the next one in byte order is not free. -/
def FreeOk (a : Allocator) (offset : Nat) : Prop :=
  ∀ extent ∈ a.extents.get offset, ∀ next ∈ a.extents.next offsetBytes offset,
    next.2.status = .free →
      next.1 = offset + extent.length ∧
        ∀ previous ∈ OrderedStore.next offsetBytes (a.extents.del next.1) offset,
          previous.2.status ≠ .free

/-- The database `mtl_truncate_extent` hands to `mtl_free_extent`. -/
def truncatedExtents (a : Allocator) (offset len : Nat) (extent : Extent) :
    OrderedStore Nat Extent :=
  (a.extents.put offset { extent with status := .committed, length := len }).put
    (u64 (offset + len)) ⟨extent.length - len, .reserved, invalidNode⟩

/-- `mtl_truncate_extent` does not grow the extent, and frees what it cuts off as
`FreeOk` demands. -/
def TruncateOk (a : Allocator) (offset len : Nat) : Prop :=
  ∀ extent ∈ a.extents.get offset,
    len ≤ extent.length ∧ (len = 0 → FreeOk a offset) ∧
      (0 < len → len < extent.length →
        FreeOk ⟨truncatedExtents a offset len extent, a.heap⟩ (offset + len))

variable {a : Allocator} {N : Nat}

/-! ## `mtl_reserve_extent` -/

/-- The databases after a free extent of `e.length` blocks at `offset` was handed
out to its first `size` blocks. -/
def reservedFresh (a : Allocator) (offset : Nat) (e : Extent) (size : Nat) (commit : Bool) :
    Nat × Option Nat × Allocator :=
  let status := if commit then ExtentStatus.committed else .reserved
  if size < e.length then
    (size, some offset,
      { extents := (a.extents.put (offset + size)
          ⟨e.length - size, .free, ⟨e.length - size, offset + size⟩⟩).put offset
            ⟨size, status, e.pqNode⟩
        heap := (a.heap.del ⟨e.length, offset⟩).put ⟨e.length - size, offset + size⟩
          (offset + size) })
  else
    (e.length, some offset,
      ⟨a.extents.put offset { e with status }, a.heap.del ⟨e.length, offset⟩⟩)

/-- The databases after the extent at `offset` was grown to `total` blocks at the
expense of the free extent of `next` blocks behind it. -/
def reservedInPlace (a : Allocator) (offset : Nat) (e : Extent) (next total : Nat)
    (commit : Bool) : Allocator :=
  let status := if commit then ExtentStatus.committed else .reserved
  { extents := ((a.extents.del (offset + e.length)).put (offset + total)
      ⟨e.length + next - total, .free, ⟨e.length + next - total, offset + total⟩⟩).put offset
        ⟨total, status, e.pqNode⟩
    heap := (a.heap.del ⟨next, offset + e.length⟩).put
      ⟨e.length + next - total, offset + total⟩ (offset + total) }

theorem popFreeExtent_cases (loose : a.Loose N) :
    (popFreeExtent a = some (none, a) ∧
        ∀ offset extent, a.extents.get offset = some extent → extent.status ≠ .free) ∨
      ∃ offset e, a.extents.get offset = some e ∧ e.status = .free ∧
        popFreeExtent a =
          some (some ⟨offset, e, 0, 0⟩, ⟨a.extents, a.heap.del ⟨e.length, offset⟩⟩) := by
  rcases mtlHeapExtractMax_cases a.heap with ⟨empty, absent⟩ | ⟨id, value, inHeap, extracted⟩
  · refine Or.inl ⟨by simp only [popFreeExtent, empty], ?_⟩
    intro offset extent stored free
    have listed := (loose.listed stored free).2
    rw [absent] at listed
    cases listed
  · obtain ⟨e, stored, free, rfl⟩ := loose.only inHeap
    refine Or.inr ⟨value, e, stored, free, ?_⟩
    simp only [popFreeExtent, extracted, stored]

/-- The free extent behind `last` is taken out of both databases. -/
theorem extendLastExtent_of_free (loose : a.Loose N) (bound : N < 2 ^ 64) {last : FileExtent}
    (positive : 0 < last.length) {e next : Extent} (stored : a.extents.get last.offset = some e)
    (following : a.extents.get (last.offset + last.length) = some next)
    (free : next.status = .free) :
    extendLastExtent a last = some (some ⟨last.offset, e, e.length, next.length⟩,
      ⟨a.extents.del (last.offset + last.length),
        a.heap.del ⟨next.length, last.offset + last.length⟩⟩) := by
  have inside := loose.le following
  have nextOffset : u64 (last.offset + last.length) = last.offset + last.length :=
    u64_of_lt (by omega)
  obtain ⟨node, inHeap⟩ := loose.listed following free
  have other : last.offset ≠ last.offset + last.length := by omega
  simp only [extendLastExtent, nextOffset, following, free, if_true, node,
    mtlHeapDelete_of_get inHeap, get_del, if_neg other, stored]

theorem extendLastExtent_of_not_free {last : FileExtent}
    (small : last.offset + last.length < 2 ^ 64)
    (notFree : ∀ next ∈ a.extents.get (last.offset + last.length), next.status ≠ .free) :
    extendLastExtent a last = some (none, a) := by
  have nextOffset : u64 (last.offset + last.length) = last.offset + last.length := u64_of_lt small
  cases following : a.extents.get (last.offset + last.length) with
  | none => simp only [extendLastExtent, nextOffset, following]
  | some next =>
    simp only [extendLastExtent, nextOffset, following, if_neg (notFree next following)]

/-- Handing out a free extent of the heap. -/
theorem splitCandidate_fresh (loose : a.Loose N) (bound : N < 2 ^ 64) {size : Nat}
    (small : size < 2 ^ 64) (commit : Bool) {offset : Nat} {e : Extent}
    (stored : a.extents.get offset = some e) :
    handOut ⟨a.extents, a.heap.del ⟨e.length, offset⟩⟩ (some ⟨offset, e, 0, 0⟩) size commit =
      reservedFresh a offset e size commit := by
  have inside := loose.le stored
  have lengthEq : u64 (e.length + 0) = e.length := u64_of_lt (by omega)
  have totalEq : u64 (0 + size) = size := by rw [Nat.zero_add]; exact u64_of_lt small
  simp only [handOut, splitCandidate, reservedFresh, lengthEq, totalEq, mtlHeapInsert]
  by_cases cut : size < e.length
  · have offsetEq : u64 (offset + size) = offset + size := u64_of_lt (by omega)
    have result : u64 (size + 2 ^ 64 - 0) = size := by unfold u64; omega
    simp only [if_pos cut, offsetEq, result]
  · have result : u64 (e.length + 2 ^ 64 - 0) = e.length := by unfold u64; omega
    simp only [if_neg cut, result]

/-- Growing an extent at the expense of the free one behind it. -/
theorem splitCandidate_inPlace (inv : a.Inv N) (bound : N < 2 ^ 64) {size : Nat}
    (commit : Bool) {offset : Nat} {e next : Extent}
    (stored : a.extents.get (offset + e.length) = some next)
    (cut : u64 (e.length + size) < e.length + next.length) :
    splitCandidate ⟨a.extents.del (offset + e.length),
        a.heap.del ⟨next.length, offset + e.length⟩⟩
      ⟨offset, e, e.length, next.length⟩ size commit =
      (u64 (u64 (e.length + size) + 2 ^ 64 - e.length), offset,
        reservedInPlace a offset e next.length (u64 (e.length + size)) commit) := by
  have inside := inv.le stored
  have lengthEq : u64 (e.length + next.length) = e.length + next.length := u64_of_lt (by omega)
  have offsetEq : u64 (offset + u64 (e.length + size)) = offset + u64 (e.length + size) :=
    u64_of_lt (by omega)
  simp only [splitCandidate, reservedInPlace, lengthEq, mtlHeapInsert, if_pos cut, offsetEq]

/-- A free extent lies behind `lastExtent`. -/
def FollowedByFree (a : Allocator) (lastExtent : Option FileExtent) : Prop :=
  ∃ last ∈ lastExtent, ∃ next ∈ a.extents.get (last.offset + last.length), next.status = .free

/-- A reservation that cannot grow `lastExtent` takes a free extent from the heap, if there is
one. -/
theorem mtlReserveExtent_of_alone (loose : a.Loose N) (bound : N < 2 ^ 64) {size : Nat}
    (small : size < 2 ^ 64) {lastExtent : Option FileExtent} (commit : Bool)
    (inside : ∀ last ∈ lastExtent, last.offset + last.length ≤ N)
    (alone : ¬ FollowedByFree a lastExtent) :
    (mtlReserveExtent a size lastExtent commit = some (0, none, a) ∧
        ∀ offset extent, a.extents.get offset = some extent → extent.status ≠ .free) ∨
      ∃ offset e, a.extents.get offset = some e ∧ e.status = .free ∧
        mtlReserveExtent a size lastExtent commit =
          some (reservedFresh a offset e size commit) := by
  have fromHeap : mtlReserveExtent a size lastExtent commit =
      (popFreeExtent a).map fun r => handOut r.2 r.1 size commit := by
    rw [Option.map_eq_bind]
    cases lastExtent with
    | none => rfl
    | some last =>
      have none := extendLastExtent_of_not_free (Nat.lt_of_le_of_lt (inside last rfl) bound)
        fun next following free => alone ⟨last, rfl, next, following, free⟩
      simp only [mtlReserveExtent, none, Option.bind_eq_bind, Option.bind_some]
      rfl
  rcases popFreeExtent_cases loose with ⟨empty, none⟩ | ⟨offset, e, stored, free, pop⟩
  · rw [empty] at fromHeap
    exact Or.inl ⟨fromHeap, none⟩
  · rw [pop] at fromHeap
    refine Or.inr ⟨offset, e, stored, free, fromHeap.trans ?_⟩
    rw [← splitCandidate_fresh loose bound small commit stored]
    rfl

theorem mtlReserveExtent_of_not_followed (inv : a.Inv N) (bound : N < 2 ^ 64) {size : Nat}
    (small : size < 2 ^ 64) {lastExtent : Option FileExtent} (commit : Bool)
    (lastAllocated : ∀ last ∈ lastExtent, a.Allocated last.offset last.length)
    (alone : ¬ FollowedByFree a lastExtent) :
    (mtlReserveExtent a size lastExtent commit = some (0, none, a) ∧
        ∀ offset extent, a.extents.get offset = some extent → extent.status ≠ .free) ∨
      ∃ offset e, a.extents.get offset = some e ∧ e.status = .free ∧
        mtlReserveExtent a size lastExtent commit =
          some (reservedFresh a offset e size commit) := by
  refine mtlReserveExtent_of_alone inv.loose bound small commit ?_ alone
  intro last isLast
  obtain ⟨e, stored, -, length⟩ := lastAllocated last isLast
  rw [← length]
  exact inv.le stored

/-- A reservation that grows `last` hands out the free extent behind it. -/
theorem mtlReserveExtent_of_followed (loose : a.Loose N) (bound : N < 2 ^ 64) (size : Nat)
    (commit : Bool) {last : FileExtent} (positive : 0 < last.length) {e next : Extent}
    (stored : a.extents.get last.offset = some e)
    (following : a.extents.get (last.offset + last.length) = some next)
    (free : next.status = .free) :
    mtlReserveExtent a size (some last) commit =
      some (handOut ⟨a.extents.del (last.offset + last.length),
          a.heap.del ⟨next.length, last.offset + last.length⟩⟩
        (some ⟨last.offset, e, e.length, next.length⟩) size commit) := by
  have extended := extendLastExtent_of_free loose bound positive stored following free
  simp only [mtlReserveExtent, extended, Option.bind_eq_bind, Option.bind_some]

theorem mtlReserveExtent_of_free (inv : a.Inv N) (bound : N < 2 ^ 64) (size : Nat) (commit : Bool)
    {last : FileExtent} {e next : Extent} (stored : a.extents.get last.offset = some e)
    (length : e.length = last.length)
    (following : a.extents.get (last.offset + last.length) = some next)
    (free : next.status = .free) :
    mtlReserveExtent a size (some last) commit =
      some (handOut ⟨a.extents.del (last.offset + last.length),
          a.heap.del ⟨next.length, last.offset + last.length⟩⟩
        (some ⟨last.offset, e, last.length, next.length⟩) size commit) := by
  have positive := inv.pos stored
  rw [mtlReserveExtent_of_followed inv.loose bound size commit (by omega) stored following free,
    length]

/-- Everything a reservation can do: there is no free extent, one from the heap is
handed out, or `lastExtent` is grown in place. -/
theorem mtlReserveExtent_cases (inv : a.Inv N) (bound : N < 2 ^ 64) {size : Nat}
    (small : size < 2 ^ 64) {lastExtent : Option FileExtent} (commit : Bool)
    (lastAllocated : ∀ last ∈ lastExtent, a.Allocated last.offset last.length)
    (ok : ReserveOk a size lastExtent) :
    (mtlReserveExtent a size lastExtent commit = some (0, none, a) ∧
        ∀ offset extent, a.extents.get offset = some extent → extent.status ≠ .free) ∨
      (∃ offset e, a.extents.get offset = some e ∧ e.status = .free ∧
        mtlReserveExtent a size lastExtent commit =
          some (reservedFresh a offset e size commit)) ∨
      ∃ last e next, last ∈ lastExtent ∧ a.extents.get last.offset = some e ∧
        e.status ≠ .free ∧ e.length = last.length ∧
        a.extents.get (last.offset + last.length) = some next ∧ next.status = .free ∧
        mtlReserveExtent a size lastExtent commit =
          some (u64 (u64 (last.length + size) + 2 ^ 64 - last.length), some last.offset,
            reservedInPlace a last.offset e next.length (u64 (last.length + size)) commit) := by
  by_cases followed : FollowedByFree a lastExtent
  · obtain ⟨last, rfl, next, following, free⟩ := followed
    obtain ⟨e, stored, notFree, length⟩ := lastAllocated last rfl
    refine Or.inr (Or.inr ⟨last, e, next, rfl, stored, notFree, length, following, free, ?_⟩)
    have cut := (ok last rfl next following free).2
    rw [mtlReserveExtent_of_free inv bound size commit stored length following free]
    change a.extents.get (last.offset + last.length) = some next at following
    rw [← length] at following cut ⊢
    rw [handOut, splitCandidate_inPlace inv bound commit following cut]
  · exact (mtlReserveExtent_of_not_followed inv bound small commit lastAllocated
      followed).imp_right Or.inl

theorem reserved_ne_free : ExtentStatus.reserved ≠ .free := by decide

theorem commitStatus_ne_free (commit : Bool) :
    (if commit then ExtentStatus.committed else .reserved) ≠ .free := by
  cases commit <;> decide

theorem reservedFresh_inv (inv : a.Inv N) {size offset : Nat} (positive : 0 < size)
    (commit : Bool) {e : Extent} (stored : a.extents.get offset = some e) :
    (reservedFresh a offset e size commit).2.2.Inv N := by
  have notFree := commitStatus_ne_free commit
  have taken := inv.take stored
    { e with status := if commit then .committed else .reserved } notFree rfl
  by_cases cut : size < e.length
  · simp only [reservedFresh, if_pos cut]
    have split := taken.split (get_put_self _ _ _) notFree
      ⟨size, if commit then .committed else .reserved, e.pqNode⟩
      ⟨e.length - size, .reserved, invalidNode⟩ positive cut rfl notFree reserved_ne_free
    refine (split.release (get_put_self _ _ _) reserved_ne_free).congr ?_ (fun _ => rfl)
    intro x
    simp only [get_put]
    grind
  · simp only [reservedFresh, if_neg cut]
    exact taken

theorem reservedInPlace_inv (inv : a.Inv N) {offset total : Nat} (commit : Bool)
    {e next : Extent} (stored : a.extents.get offset = some e) (notFree : e.status ≠ .free)
    (following : a.extents.get (offset + e.length) = some next) (positive : 0 < total)
    (cut : total < e.length + next.length) :
    (reservedInPlace a offset e next.length total commit).Inv N := by
  have committed := commitStatus_ne_free commit
  have other : offset ≠ offset + e.length := by
    have := inv.pos stored
    omega
  have taken := inv.take following { next with status := .reserved } reserved_ne_free rfl
  have merged := taken.merge ((get_put_of_ne other).trans stored) notFree (get_put_self _ _ _)
    reserved_ne_free ⟨e.length + next.length, .reserved, e.pqNode⟩ rfl reserved_ne_free
  have split := merged.split (get_put_self _ _ _) reserved_ne_free
    ⟨total, if commit then .committed else .reserved, e.pqNode⟩
    ⟨e.length + next.length - total, .reserved, invalidNode⟩ positive cut rfl
    committed reserved_ne_free
  refine (split.release (get_put_self _ _ _) reserved_ne_free).congr ?_ (fun _ => rfl)
  intro x
  simp only [reservedInPlace, get_put, get_del]
  grind

/-- `mtl_reserve_extent` keeps the invariant where `ReserveOk` holds. -/
theorem mtlReserveExtent_inv (inv : a.Inv N) (bound : N < 2 ^ 64) {size : Nat}
    (positive : 0 < size) (small : size < 2 ^ 64) {lastExtent : Option FileExtent} (commit : Bool)
    (lastAllocated : ∀ last ∈ lastExtent, a.Allocated last.offset last.length)
    (ok : ReserveOk a size lastExtent) :
    ∃ r, mtlReserveExtent a size lastExtent commit = some r ∧ r.2.2.Inv N := by
  rcases mtlReserveExtent_cases inv bound small commit lastAllocated ok with
    ⟨none, _⟩ | ⟨offset, e, stored, _, fresh⟩ |
      ⟨last, e, next, isLast, stored, notFree, length, following, free, inPlace⟩
  · exact ⟨_, none, inv⟩
  · exact ⟨_, fresh, reservedFresh_inv inv positive commit stored⟩
  · obtain ⟨low, high⟩ := ok last isLast next following free
    rw [← length] at low high following inPlace
    exact ⟨_, inPlace, reservedInPlace_inv inv commit stored notFree following low high⟩

/-- An extent of `n` blocks is stored at `offset` and is committed. -/
def Allocator.Committed (a : Allocator) (offset n : Nat) : Prop :=
  ∃ extent, a.extents.get offset = some extent ∧ extent.status = .committed ∧ extent.length = n

theorem committed_ne_free : ExtentStatus.committed ≠ .free := by decide

theorem Allocator.Committed.allocated {offset n : Nat} (committed : a.Committed offset n) :
    a.Allocated offset n := by
  obtain ⟨extent, stored, status, length⟩ := committed
  exact ⟨extent, stored, by rw [status]; exact committed_ne_free, length⟩

theorem Allocator.Committed.not_free {offset n : Nat} (committed : a.Committed offset n) :
    ¬ ∃ e, a.extents.get offset = some e ∧ e.status = .free := by
  intro free
  obtain ⟨e, stored, isFree⟩ := free
  obtain ⟨extent, found, status, -⟩ := committed
  rw [stored] at found
  cases found
  rw [isFree] at status
  cases status

/-- What a committing reservation of `n` blocks did: `offset` is a free extent that
was handed out or `lastExtent`, which was grown in place. -/
structure Reserved (a a' : Allocator) (N size : Nat) (lastExtent : Option FileExtent)
    (n offset : Nat) : Prop where
  inv : a'.Inv N
  positive : 0 < n
  le : n ≤ size
  place : ((∃ e, a.extents.get offset = some e ∧ e.status = .free) ∧ a'.Committed offset n) ∨
    ∃ last ∈ lastExtent, last.offset = offset ∧ a'.Committed offset (last.length + n)
  kept : ∀ {o e}, a.extents.get o = some e → e.status ≠ .free → o ≠ offset →
    a'.extents.get o = some e
  free : ∀ {o e}, a'.extents.get o = some e → e.status = .free →
    ∃ o' e', a.extents.get o' = some e' ∧ e'.status = .free ∧ o' ≤ o ∧
      o + e.length = o' + e'.length
  whole : n < size → ∃ e, a.extents.get offset = some e ∧ e.status = .free ∧ n = e.length ∧
    a'.Committed offset n
  freeBlocks : a.freeBlocks = a'.freeBlocks + n

theorem Reserved.of_fresh (inv : a.Inv N) {size offset : Nat} (positive : 0 < size)
    (lastExtent : Option FileExtent) {e : Extent} (stored : a.extents.get offset = some e)
    (free : e.status = .free) :
    Reserved a (reservedFresh a offset e size true).2.2 N size lastExtent
      (reservedFresh a offset e size true).1 offset := by
  have inv' := reservedFresh_inv inv positive true stored
  have share := freeLength_of_free free
  by_cases cut : size < e.length
  · have inside := inv.get_eq_none_of_inside stored (x := offset + size) (by omega) (by omega)
    simp only [reservedFresh, if_pos cut] at inv' ⊢
    refine ⟨inv', positive, le_refl _, Or.inl ⟨⟨e, stored, free⟩, _, get_put_self _ _ _,
      rfl, rfl⟩, ?_, ?_, ?_, ?_⟩
    · intro o x found _ other
      have notInside : o ≠ offset + size := by
        rintro rfl
        rw [inside] at found
        cases found
      rw [get_put_of_ne other, get_put_of_ne notInside, found]
    · intro o x found isFree
      simp only [get_put] at found
      split at found
      · cases found
        cases isFree
      · split at found
        · rename_i same
          cases found
          exact ⟨offset, e, stored, free, by omega, by simp only; omega⟩
        · exact ⟨o, x, found, isFree, le_refl _, rfl⟩
    · exact fun less => absurd less (lt_irrefl _)
    · have added := weight_put_of_none (w := freeLength) inside
        (v := ⟨e.length - size, .free, ⟨e.length - size, offset + size⟩⟩)
      have other : offset ≠ offset + size := by omega
      have taken := weight_put_of_get (w := freeLength)
        (m := a.extents.put (offset + size) ⟨e.length - size, .free,
          ⟨e.length - size, offset + size⟩⟩) (v := ⟨size, .committed, e.pqNode⟩)
        (by rw [get_put_of_ne other]; exact stored)
      simp only [Allocator.freeBlocks, freeLength_mk_free, freeLength_mk_committed, if_true] at *
      omega
  · simp only [reservedFresh, if_neg cut] at inv' ⊢
    refine ⟨inv', inv.pos stored, by omega, Or.inl ⟨⟨e, stored, free⟩, _, get_put_self _ _ _,
      rfl, rfl⟩, ?_, ?_, ?_, ?_⟩
    · intro o x found _ other
      rw [get_put_of_ne other, found]
    · intro o x found isFree
      simp only [get_put] at found
      split at found
      · cases found
        cases isFree
      · exact ⟨o, x, found, isFree, le_refl _, rfl⟩
    · exact fun _ => ⟨e, stored, free, rfl, _, get_put_self _ _ _, rfl, rfl⟩
    · have taken := weight_put_of_get (w := freeLength) (v := { e with status := .committed })
        stored
      simp only [Allocator.freeBlocks, freeLength_mk_committed, if_true] at *
      omega

theorem Reserved.of_inPlace (inv : a.Inv N) {size : Nat} (positive : 0 < size)
    {lastExtent : Option FileExtent} {last : FileExtent} (isLast : last ∈ lastExtent)
    {e next : Extent} (stored : a.extents.get last.offset = some e) (notFree : e.status ≠ .free)
    (length : e.length = last.length)
    (following : a.extents.get (last.offset + last.length) = some next)
    (free : next.status = .free) (cut : size < next.length) :
    Reserved a (reservedInPlace a last.offset e next.length (last.length + size) true) N size
      lastExtent size last.offset := by
  rw [← length] at following ⊢
  have low := inv.pos stored
  have inside := inv.get_eq_none_of_inside following (x := last.offset + (e.length + size))
    (by omega) (by omega)
  refine ⟨reservedInPlace_inv inv true stored notFree following (by omega) (by omega), positive,
    le_refl _, Or.inr ⟨last, isLast, rfl, _, get_put_self _ _ _, rfl, by rw [length]⟩, ?_, ?_, ?_, ?_⟩
  · intro o x found xNotFree other
    have notNext : o ≠ last.offset + e.length := by
      rintro rfl
      rw [following] at found
      cases found
      exact xNotFree free
    have notInside : o ≠ last.offset + (e.length + size) := by
      rintro rfl
      rw [inside] at found
      cases found
    simp only [reservedInPlace]
    rw [get_put_of_ne other, get_put_of_ne notInside, get_del_of_ne notNext, found]
  · intro o x found isFree
    simp only [reservedInPlace, get_put] at found
    split at found
    · cases found
      cases isFree
    · split at found
      · rename_i same
        cases found
        exact ⟨last.offset + e.length, next, following, free, by omega, by simp only; omega⟩
      · rw [get_del] at found
        split at found
        · cases found
        · exact ⟨o, x, found, isFree, le_refl _, rfl⟩
  · exact fun less => absurd less (lt_irrefl _)
  · have apart : last.offset ≠ last.offset + e.length := by omega
    have apart' : last.offset ≠ last.offset + (e.length + size) := by omega
    have behind : last.offset + (e.length + size) ≠ last.offset + e.length := by omega
    have removed := weight_of_get (w := freeLength) following
    have added := weight_put_of_none (w := freeLength) (m := a.extents.del (last.offset + e.length))
      (k := last.offset + (e.length + size))
      (v := ⟨e.length + next.length - (e.length + size), .free,
        ⟨e.length + next.length - (e.length + size), last.offset + (e.length + size)⟩⟩)
      (by rw [get_del_of_ne behind]; exact inside)
    have taken := weight_put_of_get (w := freeLength)
      (m := (a.extents.del (last.offset + e.length)).put (last.offset + (e.length + size))
        ⟨e.length + next.length - (e.length + size), .free,
          ⟨e.length + next.length - (e.length + size), last.offset + (e.length + size)⟩⟩)
      (v := ⟨e.length + size, .committed, e.pqNode⟩)
      (by rw [get_put_of_ne apart', get_del_of_ne apart]; exact stored)
    simp only [Allocator.freeBlocks, reservedInPlace, freeLength_mk_free, if_true,
      freeLength_mk_committed, freeLength_of_free free, freeLength_of_ne notFree] at *
    omega

theorem freeBlocks_eq_zero
    (none : ∀ offset extent, a.extents.get offset = some extent → extent.status ≠ .free) :
    a.freeBlocks = 0 := by
  refine weight_eq_zero ?_
  intro offset extent stored
  exact freeLength_of_ne (none offset extent stored)

/-- An allocated extent is no longer than the device. -/
theorem Allocator.Inv.length_le (inv : a.Inv N) {offset n : Nat} (allocated : a.Allocated offset n) :
    n ≤ N := by
  obtain ⟨e, stored, -, rfl⟩ := allocated
  have inside := inv.le stored
  omega

/-- A committing reservation in all its outcomes. -/
theorem mtlReserveExtent_spec (inv : a.Inv N) (bound : N < 2 ^ 64) {size : Nat}
    (positive : 0 < size) (small : size < 2 ^ 64) {lastExtent : Option FileExtent}
    (noWrap : ∀ last ∈ lastExtent, last.length + size < 2 ^ 64)
    (lastAllocated : ∀ last ∈ lastExtent, a.Allocated last.offset last.length)
    (ok : ReserveOk a size lastExtent) :
    (mtlReserveExtent a size lastExtent true = some (0, none, a) ∧ a.freeBlocks = 0) ∨
      ∃ n offset a', mtlReserveExtent a size lastExtent true = some (n, some offset, a') ∧
        Reserved a a' N size lastExtent n offset := by
  rcases mtlReserveExtent_cases inv bound small true lastAllocated ok with
    ⟨none, absent⟩ | ⟨offset, e, stored, free, fresh⟩ |
      ⟨last, e, next, isLast, stored, notFree, length, following, free, inPlace⟩
  · exact Or.inl ⟨none, freeBlocks_eq_zero absent⟩
  · refine Or.inr ⟨(reservedFresh a offset e size true).1, offset,
      (reservedFresh a offset e size true).2.2, ?_, .of_fresh inv positive lastExtent stored free⟩
    rw [fresh]
    by_cases cut : size < e.length
    · simp only [reservedFresh, if_pos cut]
    · simp only [reservedFresh, if_neg cut]
  · have totalEq : u64 (last.length + size) = last.length + size := u64_of_lt (noWrap last isLast)
    have high := (ok last isLast next following free).2
    have resultEq : u64 (last.length + size + 2 ^ 64 - last.length) = size := by
      unfold u64
      omega
    rw [totalEq] at high inPlace
    rw [resultEq] at inPlace
    exact Or.inr ⟨_, _, _, inPlace,
      .of_inPlace inv positive isLast stored notFree length following free (by omega)⟩

/-- Growing an extent in place by all the blocks of the free extent behind it leaves
its stored length as it was. -/
theorem mtlReserveExtent_fill (inv : a.Inv N) {size : Nat} (small : N + size < 2 ^ 64)
    {last : FileExtent} (allocated : a.Allocated last.offset last.length) {next : Extent}
    (following : a.extents.get (last.offset + last.length) = some next)
    (free : next.status = .free) (fills : next.length ≤ size) :
    ∃ e, e.status = .committed ∧ mtlReserveExtent a size (some last) true =
      some (next.length, some last.offset,
        ⟨(a.extents.del (last.offset + last.length)).put last.offset e,
          a.heap.del ⟨next.length, last.offset + last.length⟩⟩) := by
  have inside := inv.le following
  obtain ⟨e, stored, -, length⟩ := allocated
  have lengthEq : u64 (last.length + next.length) = last.length + next.length :=
    u64_of_lt (by omega)
  have totalEq : u64 (last.length + size) = last.length + size := u64_of_lt (by omega)
  have resultEq : u64 (last.length + next.length + 2 ^ 64 - last.length) = next.length := by
    unfold u64
    omega
  have notCut : ¬ last.length + size < last.length + next.length := by omega
  refine ⟨{ e with status := .committed }, rfl, ?_⟩
  rw [mtlReserveExtent_of_free inv (by omega) size true stored length following free]
  simp only [handOut, splitCandidate, length, lengthEq, totalEq, if_neg notCut, resultEq, if_true]

/-! ## `mtl_free_extent` -/

/-- The databases after the extent at `offset` became a free one of `length`
blocks. -/
def freed (a : Allocator) (offset length : Nat) : Allocator :=
  { extents := a.extents.put offset ⟨length, .free, ⟨length, offset⟩⟩
    heap := a.heap.put ⟨length, offset⟩ offset }

theorem putFreeExtent_invalidNode (a : Allocator) (offset length : Nat) :
    putFreeExtent a offset length invalidNode = freed a offset length := rfl

theorem mergePrevious_of_not_free {offset : Nat} (size : Nat)
    (notFree : ∀ previous ∈ a.extents.next offsetBytes offset, previous.2.status ≠ .free) :
    mergePrevious a offset size = (offset, size, invalidNode, a) := by
  unfold mergePrevious
  cases step : a.extents.next offsetBytes offset with
  | none => rfl
  | some previous => exact if_neg (notFree previous step)

/-- Everything freeing an extent can do where `FreeOk` holds: it is listed as it
is, or together with the free extent behind it. -/
theorem mtlFreeExtent_cases (inv : a.Inv N) (bound : N < 2 ^ 64) {offset : Nat} {e : Extent}
    (stored : a.extents.get offset = some e) (ok : FreeOk a offset) :
    (mtlFreeExtent a offset = some (freed a offset e.length) ∧
        ∀ next ∈ a.extents.next offsetBytes offset, next.2.status ≠ .free) ∨
      ∃ next, a.extents.get (offset + e.length) = some next ∧ next.status = .free ∧
        mtlFreeExtent a offset =
          some (freed ⟨a.extents.del (offset + e.length),
            a.heap.del ⟨next.length, offset + e.length⟩⟩ offset (e.length + next.length)) := by
  have alone : (∀ next ∈ a.extents.next offsetBytes offset, next.2.status ≠ .free) →
      mtlFreeExtent a offset = some (freed a offset e.length) ∧
        ∀ next ∈ a.extents.next offsetBytes offset, next.2.status ≠ .free := by
    intro notFree
    refine ⟨?_, notFree⟩
    have following : mergeFollowing a offset e.length = (e.length, a) := by
      unfold mergeFollowing
      cases step : a.extents.next offsetBytes offset with
      | none => rfl
      | some next => exact if_neg (notFree next step)
    simp only [mtlFreeExtent, stored, Option.bind_eq_bind, Option.bind_some, following,
      mergePrevious_of_not_free e.length notFree, putFreeExtent_invalidNode]
  cases step : a.extents.next offsetBytes offset with
  | none =>
    rw [step] at alone
    exact Or.inl (alone (by simp))
  | some entry =>
    obtain ⟨nextOffset, next⟩ := entry
    by_cases free : next.status = .free
    · obtain ⟨rfl, notFree⟩ := ok e stored _ step free
      have found := get_of_next step
      obtain ⟨node, inHeap⟩ := inv.listed found free
      have inside := inv.le found
      have sizeEq : u64 (e.length + next.length) = e.length + next.length :=
        u64_of_lt (by omega)
      have following : mergeFollowing a offset e.length =
          (e.length + next.length, ⟨a.extents.del (offset + e.length),
            a.heap.del ⟨next.length, offset + e.length⟩⟩) := by
        simp only [mergeFollowing, step, free, if_true, node, mtlHeapDelete_of_get inHeap, sizeEq]
      refine Or.inr ⟨next, found, free, ?_⟩
      simp only [mtlFreeExtent, stored, Option.bind_eq_bind, Option.bind_some, following]
      rw [mergePrevious_of_not_free _ notFree]
      rfl
    · rw [step] at alone
      refine Or.inl (alone ?_)
      intro entry isNext
      cases isNext
      exact free

/-- `mtl_free_extent` keeps the invariant where `FreeOk` holds. -/
theorem mtlFreeExtent_inv (inv : a.Inv N) (bound : N < 2 ^ 64) {offset : Nat} {e : Extent}
    (stored : a.extents.get offset = some e) (notFree : e.status ≠ .free) (ok : FreeOk a offset) :
    ∃ a', mtlFreeExtent a offset = some a' ∧ a'.Inv N := by
  rcases mtlFreeExtent_cases inv bound stored ok with ⟨alone, -⟩ | ⟨next, following, _, merged⟩
  · exact ⟨_, alone, inv.release stored notFree⟩
  · refine ⟨_, merged, ?_⟩
    have other : offset ≠ offset + e.length := by
      have := inv.pos stored
      omega
    have taken := inv.take following { next with status := .reserved } reserved_ne_free rfl
    have joined := taken.merge ((get_put_of_ne other).trans stored) notFree (get_put_self _ _ _)
      reserved_ne_free ⟨e.length + next.length, .reserved, e.pqNode⟩ rfl reserved_ne_free
    refine (joined.release (get_put_self _ _ _) reserved_ne_free).congr ?_ (fun _ => rfl)
    intro x
    simp only [freed, get_put, get_del]
    grind

/-- Freeing an extent leaves all other allocated ones as they are. -/
theorem mtlFreeExtent_kept (inv : a.Inv N) (bound : N < 2 ^ 64) {offset : Nat} {e : Extent}
    (stored : a.extents.get offset = some e) (ok : FreeOk a offset) {a' : Allocator}
    (returned : mtlFreeExtent a offset = some a') {o : Nat} {x : Extent}
    (found : a.extents.get o = some x) (notFree : x.status ≠ .free) (other : o ≠ offset) :
    a'.extents.get o = some x := by
  rcases mtlFreeExtent_cases inv bound stored ok with ⟨alone, -⟩ | ⟨next, following, free, merged⟩
  · rw [alone] at returned
    cases returned
    exact (get_put_of_ne other).trans found
  · rw [merged] at returned
    cases returned
    have notNext : o ≠ offset + e.length := by
      rintro rfl
      rw [following] at found
      cases found
      exact notFree free
    exact (get_put_of_ne other).trans ((get_del_of_ne notNext).trans found)

/-! ## `mtl_truncate_extent` -/

theorem truncatedExtents_inv (inv : a.Inv N) (bound : N < 2 ^ 64) {offset len : Nat} {e : Extent}
    (stored : a.extents.get offset = some e) (notFree : e.status ≠ .free) (low : 0 < len)
    (high : len < e.length) :
    (⟨truncatedExtents a offset len e, a.heap⟩ : Allocator).Inv N := by
  have inside := inv.le stored
  have split := inv.split stored notFree
    { e with status := .committed, length := len }
    ⟨e.length - len, .reserved, invalidNode⟩ low high rfl (by simp) reserved_ne_free
  have offsetEq : u64 (offset + len) = offset + len := u64_of_lt (by omega)
  simpa only [truncatedExtents, offsetEq] using split

/-- `mtl_truncate_extent` keeps the invariant where `TruncateOk` holds. -/
theorem mtlTruncateExtent_inv (inv : a.Inv N) (bound : N < 2 ^ 64) {offset len : Nat} {e : Extent}
    (stored : a.extents.get offset = some e) (notFree : e.status ≠ .free)
    (ok : TruncateOk a offset len) :
    ∃ a', mtlTruncateExtent a offset len = some a' ∧ a'.Inv N := by
  obtain ⟨short, whenZero, whenCut⟩ := ok e stored
  rcases Nat.eq_zero_or_pos len with rfl | low
  · rw [mtlTruncateExtent, if_pos rfl]
    exact mtlFreeExtent_inv inv bound stored notFree (whenZero rfl)
  · have nonzero : len ≠ 0 := by omega
    rcases Nat.lt_or_ge len e.length with high | full
    · have inside := inv.le stored
      have offsetEq : u64 (offset + len) = offset + len := u64_of_lt (by omega)
      have cut := truncatedExtents_inv inv bound stored notFree low high
      have rest : (truncatedExtents a offset len e).get (offset + len) =
          some ⟨e.length - len, .reserved, invalidNode⟩ := by
        rw [truncatedExtents, offsetEq, get_put_self]
      have freed := mtlFreeExtent_inv cut bound rest reserved_ne_free (whenCut low high)
      simpa only [mtlTruncateExtent, if_neg nonzero, stored, Option.bind_eq_bind,
        Option.bind_some, if_pos high, offsetEq, truncatedExtents] using freed
    · have same : len = e.length := by omega
      refine ⟨⟨a.extents.put offset { e with status := .committed, length := len }, a.heap⟩,
        ?_, ?_⟩
      · simp only [mtlTruncateExtent, if_neg nonzero, stored, Option.bind_eq_bind,
          Option.bind_some, if_neg (Nat.not_lt.mpr full)]
      · have kept := inv.take stored { e with status := .committed, length := len }
          (by simp) same
        refine kept.congr (fun _ => rfl) ?_
        intro id
        have absent : a.heap.get ⟨e.length, offset⟩ = none := by
          cases inHeap : a.heap.get ⟨e.length, offset⟩ with
          | none => rfl
          | some value =>
            obtain ⟨x, storedFree, free, node⟩ := inv.only inHeap
            obtain ⟨-, rfl⟩ := HeapNodeId.mk.inj node
            rw [stored] at storedFree
            cases storedFree
            exact absurd free notFree
        rw [get_del]
        split
        · rename_i node
          rw [node, absent]
        · rfl

/-- Truncating an extent commits what is left of it and leaves all other allocated
ones as they are. -/
theorem mtlTruncateExtent_kept (inv : a.Inv N) (bound : N < 2 ^ 64) {offset len : Nat}
    {e : Extent} (stored : a.extents.get offset = some e) (notFree : e.status ≠ .free)
    (nonzero : len ≠ 0) (ok : TruncateOk a offset len) {a' : Allocator}
    (returned : mtlTruncateExtent a offset len = some a') :
    a'.Committed offset len ∧ ∀ {o x}, a.extents.get o = some x → x.status ≠ .free →
      o ≠ offset → a'.extents.get o = some x := by
  obtain ⟨short, _, whenCut⟩ := ok e stored
  rcases Nat.lt_or_ge len e.length with high | full
  · have inside := inv.le stored
    have offsetEq : u64 (offset + len) = offset + len := u64_of_lt (by omega)
    have low : 0 < len := by omega
    have cut := truncatedExtents_inv inv bound stored notFree low high
    have between := inv.get_eq_none_of_inside stored (x := offset + len) (by omega) (by omega)
    have apart : offset ≠ offset + len := by omega
    -- What is stored after the cut and before the rest is freed.
    have first : (truncatedExtents a offset len e).get offset =
        some { e with status := .committed, length := len } := by
      rw [truncatedExtents, offsetEq, get_put_of_ne apart, get_put_self]
    have rest : (truncatedExtents a offset len e).get (offset + len) =
        some ⟨e.length - len, .reserved, invalidNode⟩ := by
      rw [truncatedExtents, offsetEq, get_put_self]
    have freed : mtlFreeExtent ⟨truncatedExtents a offset len e, a.heap⟩ (offset + len) =
        some a' := by
      simpa only [mtlTruncateExtent, if_neg nonzero, stored, Option.bind_eq_bind,
        Option.bind_some, if_pos high, offsetEq, truncatedExtents] using returned
    have kept := fun {o x} => mtlFreeExtent_kept cut bound rest (whenCut low high) freed
      (o := o) (x := x)
    refine ⟨⟨_, kept first (by simp) apart, rfl, rfl⟩, ?_⟩
    intro o x found xNotFree other
    have notBetween : o ≠ offset + len := by
      rintro rfl
      rw [between] at found
      cases found
    refine kept ?_ xNotFree notBetween
    show (truncatedExtents a offset len e).get o = some x
    rw [truncatedExtents, offsetEq, get_put_of_ne notBetween, get_put_of_ne other, found]
  · simp only [mtlTruncateExtent, if_neg nonzero, stored, Option.bind_eq_bind,
      Option.bind_some, if_neg (Nat.not_lt.mpr full)] at returned
    cases returned
    refine ⟨⟨_, get_put_self _ _ _, rfl, rfl⟩, ?_⟩
    intro o x found _ other
    exact (get_put_of_ne other).trans found

end MetalFs
