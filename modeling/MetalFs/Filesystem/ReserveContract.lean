import MetalFs.Filesystem.ExtentSpec

/-!
# The contract of a reservation

`ReserveContract` says what `mtl_reserve_extent` is to do with every block of the device.
`reserveContract_iff` is the condition under which it does: an extent that is grown in place
must leave something of the free extent behind it, since its stored length is only updated
where something is cut off, and it must have the status that the call asks for, since the call
writes that status to the whole extent.
-/

namespace MetalFs

open OrderedStore

/-! ## Blocks -/

/-- The block belongs to the extent at `offset`, which has the given status. -/
def Allocator.BlockAt (a : Allocator) (block offset : Nat) (status : ExtentStatus) : Prop :=
  ∃ e, a.extents.get offset = some e ∧ e.status = status ∧ offset ≤ block ∧
    block < offset + e.length

/-- The block belongs to a free extent. -/
def Allocator.FreeBlock (a : Allocator) (block : Nat) : Prop :=
  ∃ offset, a.BlockAt block offset .free

/-- The block is free in both states, or belongs to the same extent with the same status. -/
def SameUse (a a' : Allocator) (block : Nat) : Prop :=
  (a'.FreeBlock block ↔ a.FreeBlock block) ∧
    ∀ offset status, status ≠ .free →
      (a'.BlockAt block offset status ↔ a.BlockAt block offset status)

variable {a a' : Allocator} {N block offset : Nat} {status : ExtentStatus}

theorem Allocator.Inv.block_lt (inv : a.Inv N) (found : a.BlockAt block offset status) :
    block < N := by
  obtain ⟨e, stored, -, -, high⟩ := found
  have inside := inv.le stored
  omega

/-- A block belongs to one extent. -/
theorem Allocator.Inv.block_unique (inv : a.Inv N) {offset' : Nat} {status' : ExtentStatus}
    (found : a.BlockAt block offset status) (found' : a.BlockAt block offset' status') :
    offset = offset' ∧ status = status' := by
  obtain ⟨e, stored, rfl, low, high⟩ := found
  obtain ⟨e', stored', rfl, low', high'⟩ := found'
  obtain rfl := inv.tiling.eq_of_mem (pieces_of_get stored) (pieces_of_get stored') low high low'
    high'
  rw [stored] at stored'
  cases stored'
  exact ⟨rfl, rfl⟩

/-- A block of the device belongs to some extent. -/
theorem Allocator.Inv.exists_block (inv : a.Inv N) (below : block < N) :
    ∃ offset status, a.BlockAt block offset status := by
  obtain ⟨o, n, piece, low, high⟩ := inv.tiling.covered below
  obtain ⟨e, stored, rfl⟩ := Option.map_eq_some_iff.mp piece
  exact ⟨o, e.status, e, stored, rfl, low, high⟩

/-- It is enough to look at the extent a block belonged to. -/
theorem sameUse_of_forward (inv : a.Inv N) (inv' : a'.Inv N)
    (kept : ∀ offset status, status ≠ .free → a.BlockAt block offset status →
      a'.BlockAt block offset status)
    (free : a.FreeBlock block → a'.FreeBlock block) : SameUse a a' block := by
  constructor
  · refine ⟨?_, free⟩
    rintro ⟨offset', found'⟩
    obtain ⟨offset, status, found⟩ := inv.exists_block (inv'.block_lt found')
    by_cases isFree : status = .free
    · rw [isFree] at found
      exact ⟨offset, found⟩
    · exact absurd (inv'.block_unique (kept offset status isFree found) found').2 isFree
  · intro offset' status' notFree
    refine ⟨?_, kept offset' status' notFree⟩
    intro found'
    obtain ⟨offset, status, found⟩ := inv.exists_block (inv'.block_lt found')
    by_cases isFree : status = .free
    · rw [isFree] at found
      obtain ⟨o, freeBlock⟩ := free ⟨offset, found⟩
      exact absurd (inv'.block_unique found' freeBlock).2 notFree
    · obtain ⟨rfl, rfl⟩ := inv'.block_unique (kept offset status isFree found) found'
      exact found

/-! ## The contract -/

/-- The `n` blocks from `start` on become part of the allocated extent at `offset`, and no
other block is concerned. -/
structure HandsOut (a a' : Allocator) (lastExtent : Option FileExtent) (n offset start : Nat) :
    Prop where
  wasFree : ∀ block, start ≤ block → block < start + n → a.FreeBlock block
  inPlace : FollowedByFree a lastExtent → ∃ last ∈ lastExtent, offset = last.offset ∧
    start = last.offset + last.length ∧ a'.Allocated offset (last.length + n)
  fresh : ¬ FollowedByFree a lastExtent → start = offset ∧ a'.Allocated offset n
  others : ∀ block, ¬ (start ≤ block ∧ block < start + n) → SameUse a a' block

/-- What a reservation of `size` blocks is to do. -/
def ReserveContract (a : Allocator) (N size : Nat) (lastExtent : Option FileExtent)
    (commit : Bool) : Prop :=
  ∃ n offset a', mtlReserveExtent a size lastExtent commit = some (n, offset, a') ∧
    a'.Inv N ∧
    (n = 0 ↔ ∀ o e, a.extents.get o = some e → e.status ≠ .free) ∧
    (n = 0 → a' = a) ∧
    (n ≠ 0 → n ≤ size ∧ ∃ o start, offset = some o ∧ HandsOut a a' lastExtent n o start)

/-- The status a reservation gives to the extent. -/
def commitStatus (commit : Bool) : ExtentStatus := if commit then .committed else .reserved

/-- Where `lastExtent` is followed by a free extent, the reservation leaves a part of it, and
`lastExtent` has the status already. -/
def LeavesRest (a : Allocator) (size : Nat) (lastExtent : Option FileExtent) (commit : Bool) :
    Prop :=
  ∀ last ∈ lastExtent, ∀ next ∈ a.extents.get (last.offset + last.length),
    next.status = .free →
      size < next.length ∧ ∀ e ∈ a.extents.get last.offset, e.status = commitStatus commit

variable {size : Nat} {lastExtent : Option FileExtent} {commit : Bool} {e next : Extent}
  {last : FileExtent}

/-! ### A free extent is handed out -/

theorem reservedFresh_handsOut (inv : a.Inv N) (positive : 0 < size)
    (stored : a.extents.get offset = some e) (free : e.status = .free)
    (alone : ¬ FollowedByFree a lastExtent) :
    ∃ n a', reservedFresh a offset e size commit = (n, some offset, a') ∧ a'.Inv N ∧ n ≠ 0 ∧
      n ≤ size ∧ HandsOut a a' lastExtent n offset offset := by
  have inv' := reservedFresh_inv inv positive commit stored
  have notFree := commitStatus_ne_free commit
  have low := inv.pos stored
  by_cases cut : size < e.length
  · simp only [reservedFresh, if_pos cut] at inv' ⊢
    have inside := inv.get_eq_none_of_inside stored (x := offset + size) (by omega) (by omega)
    have apart : offset + size ≠ offset := by omega
    refine ⟨size, _, rfl, inv', by omega, le_refl _, ?_, ?_, ?_, ?_⟩
    · intro block first before
      exact ⟨offset, e, stored, free, first, by omega⟩
    · exact fun followed => absurd followed alone
    · exact fun _ => ⟨rfl, _, get_put_self _ _ _, notFree, rfl⟩
    · intro block outside
      refine sameUse_of_forward inv inv' ?_ ?_
      · rintro o status isUsed ⟨x, found, rfl, first, before⟩
        have other : o ≠ offset := by
          rintro rfl
          rw [stored] at found
          cases found
          exact isUsed free
        have notInside : o ≠ offset + size := by
          rintro rfl
          rw [inside] at found
          cases found
        exact ⟨x, by rw [get_put_of_ne other, get_put_of_ne notInside, found], rfl, first, before⟩
      · rintro ⟨o, x, found, isFree, first, before⟩
        by_cases same : o = offset
        · subst same
          rw [stored] at found
          cases found
          refine ⟨o + size, _, (get_put_of_ne apart).trans (get_put_self _ _ _), rfl, by omega, ?_⟩
          change block < o + size + (e.length - size)
          omega
        · have notInside : o ≠ offset + size := by
            rintro rfl
            rw [inside] at found
            cases found
          exact ⟨o, x, by rw [get_put_of_ne same, get_put_of_ne notInside, found], isFree, first,
            before⟩
  · simp only [reservedFresh, if_neg cut] at inv' ⊢
    refine ⟨e.length, _, rfl, inv', by omega, by omega, ?_, ?_, ?_, ?_⟩
    · intro block first before
      exact ⟨offset, e, stored, free, first, before⟩
    · exact fun followed => absurd followed alone
    · exact fun _ => ⟨rfl, _, get_put_self _ _ _, notFree, rfl⟩
    · intro block outside
      have kept : ∀ o status, a.BlockAt block o status →
          Allocator.BlockAt ⟨a.extents.put offset { e with
            status := if commit then .committed else .reserved }, a.heap.del ⟨e.length, offset⟩⟩
            block o status := by
        rintro o status ⟨x, found, rfl, first, before⟩
        have other : o ≠ offset := by
          rintro rfl
          rw [stored] at found
          cases found
          exact outside ⟨first, before⟩
        exact ⟨x, (get_put_of_ne other).trans found, rfl, first, before⟩
      refine sameUse_of_forward inv inv' (fun o status _ => kept o status) ?_
      intro free
      rcases free with ⟨o, found⟩
      exact ⟨o, kept o _ found⟩

/-! ### An extent is grown in place -/

theorem reservedInPlace_handsOut (inv : a.Inv N) (isLast : last ∈ lastExtent)
    (stored : a.extents.get last.offset = some e) (status : e.status = commitStatus commit)
    (length : e.length = last.length)
    (following : a.extents.get (last.offset + last.length) = some next)
    (free : next.status = .free) (positive : 0 < size) (cut : size < next.length) :
    HandsOut a (reservedInPlace a last.offset e next.length (last.length + size) commit) lastExtent
      size last.offset (last.offset + last.length) := by
  have notFree : e.status ≠ .free := by
    rw [status]
    exact commitStatus_ne_free commit
  have low := inv.pos stored
  have following' := following
  rw [← length] at following'
  have inv' : (reservedInPlace a last.offset e next.length (last.length + size) commit).Inv N :=
    reservedInPlace_inv inv commit stored notFree following' (by omega) (by omega)
  have inside := inv.get_eq_none_of_inside following (x := last.offset + (last.length + size))
    (by omega) (by omega)
  have first : (reservedInPlace a last.offset e next.length (last.length + size)
      commit).extents.get last.offset =
        some ⟨last.length + size, commitStatus commit, e.pqNode⟩ := get_put_self _ _ _
  refine ⟨?_, ?_, ?_, ?_⟩
  · intro block after before
    exact ⟨_, next, following, free, after, by omega⟩
  · exact fun _ => ⟨last, isLast, rfl, rfl, _, first, commitStatus_ne_free commit, rfl⟩
  · exact fun alone => absurd ⟨last, isLast, next, following, free⟩ alone
  · intro block outside
    have elsewhere : ∀ {o x}, a.extents.get o = some x → o ≠ last.offset →
        o ≠ last.offset + last.length →
        (reservedInPlace a last.offset e next.length (last.length + size) commit).extents.get o =
          some x := by
      intro o x found other notNext
      have notInside : o ≠ last.offset + (last.length + size) := by
        rintro rfl
        rw [inside] at found
        cases found
      rw [← length] at notNext
      simp only [reservedInPlace]
      rw [get_put_of_ne other, get_put_of_ne notInside, get_del_of_ne notNext, found]
    refine sameUse_of_forward inv inv' ?_ ?_
    · rintro o s isUsed ⟨x, found, rfl, after, before⟩
      by_cases same : o = last.offset
      · subst same
        rw [stored] at found
        cases found
        refine ⟨_, first, status.symm, after, ?_⟩
        change block < last.offset + (last.length + size)
        omega
      · have notNext : o ≠ last.offset + last.length := by
          rintro rfl
          rw [following] at found
          cases found
          exact isUsed free
        exact ⟨x, elsewhere found same notNext, rfl, after, before⟩
    · rintro ⟨o, x, found, isFree, after, before⟩
      by_cases same : o = last.offset
      · subst same
        rw [stored] at found
        cases found
        exact absurd isFree notFree
      · by_cases isNext : o = last.offset + last.length
        · subst isNext
          rw [following] at found
          cases found
          have apart : last.offset + (last.length + size) ≠ last.offset := by omega
          refine ⟨last.offset + (last.length + size), _,
            (get_put_of_ne apart).trans (get_put_self _ _ _), rfl, by omega, ?_⟩
          change block < last.offset + (last.length + size) +
            (e.length + next.length - (last.length + size))
          omega
        · exact ⟨o, x, elsewhere found same isNext, isFree, after, before⟩

/-! ### When the contract is met -/

theorem reserveContract_of_leavesRest (inv : a.Inv N) (bound : N < 2 ^ 64) (positive : 0 < size)
    (small : size < 2 ^ 64)
    (lastAllocated : ∀ last ∈ lastExtent, a.Allocated last.offset last.length)
    (rest : LeavesRest a size lastExtent commit) : ReserveContract a N size lastExtent commit := by
  by_cases followed : FollowedByFree a lastExtent
  · obtain ⟨last, rfl, next, following, free⟩ := followed
    change a.extents.get (last.offset + last.length) = some next at following
    obtain ⟨e, stored, notFree, length⟩ := lastAllocated last rfl
    obtain ⟨cut, status⟩ := rest last rfl next following free
    have inside := inv.le following
    have low := inv.pos stored
    have totalEq : u64 (last.length + size) = last.length + size := u64_of_lt (by omega)
    have resultEq : u64 (last.length + size + 2 ^ 64 - last.length) = size := by
      unfold u64
      omega
    have following' := following
    rw [← length] at following'
    have below : u64 (e.length + size) < e.length + next.length := by
      rw [length, totalEq]
      omega
    have split := splitCandidate_inPlace inv bound commit following' below
    rw [length, totalEq, resultEq] at split
    refine ⟨size, some last.offset,
      reservedInPlace a last.offset e next.length (last.length + size) commit, ?_,
      reservedInPlace_inv inv commit stored notFree following' (by omega) (by omega), ?_, ?_, ?_⟩
    · rw [mtlReserveExtent_of_free inv bound size commit stored length following free, handOut,
        split]
    · constructor
      · intro zero
        omega
      · intro none
        exact absurd free (none _ _ following)
    · intro zero
      omega
    · exact fun _ => ⟨le_refl _, last.offset, _, rfl,
        reservedInPlace_handsOut inv rfl stored (status e stored) length following free positive cut⟩
  · rcases mtlReserveExtent_of_not_followed inv bound small commit lastAllocated followed with
      ⟨returned, none⟩ | ⟨offset, e, stored, free, returned⟩
    · exact ⟨0, _, a, returned, inv, ⟨fun _ => none, fun _ => rfl⟩, fun _ => rfl,
        fun nonzero => absurd rfl nonzero⟩
    · obtain ⟨n, a', result, inv', nonzero, le, hands⟩ :=
        @reservedFresh_handsOut a N offset size lastExtent commit e inv positive stored free followed
      refine ⟨n, some offset, a', by rw [returned, result], inv', ?_, ?_, ?_⟩
      · exact ⟨fun zero => absurd zero nonzero, fun none => absurd free (none _ _ stored)⟩
      · exact fun zero => absurd zero nonzero
      · exact fun _ => ⟨le, offset, offset, rfl, hands⟩

section Necessity

variable (inv : a.Inv N) (bound : N < 2 ^ 64) (stored : a.extents.get last.offset = some e)
  (length : e.length = last.length)
  (following : a.extents.get (last.offset + last.length) = some next) (free : next.status = .free)

include inv bound stored length following free

/-- A reservation that takes all blocks behind `last` leaves them in no extent. -/
theorem not_contract_of_fill (fills : next.length ≤ size) (noWrap : last.length + size < 2 ^ 64) :
    ¬ ReserveContract a N size (some last) commit := by
  have inside := inv.le following
  have low := inv.pos following
  have lengthEq : u64 (last.length + next.length) = last.length + next.length :=
    u64_of_lt (by omega)
  have totalEq : u64 (last.length + size) = last.length + size := u64_of_lt noWrap
  have notCut : ¬ last.length + size < last.length + next.length := by omega
  rintro ⟨n, offset, a', returned, inv', -⟩
  rw [mtlReserveExtent_of_free inv bound size commit stored length following free] at returned
  simp only [handOut, splitCandidate, length, lengthEq, totalEq, if_neg notCut] at returned
  simp only [Option.some.injEq, Prod.mk.injEq] at returned
  obtain ⟨-, -, rfl⟩ := returned
  -- The first block behind `last` was in `next`, which is gone.
  obtain ⟨o, status, x, found, -, first, before⟩ := inv'.exists_block
    (show last.offset + last.length < N by omega)
  rw [get_put] at found
  split at found
  · rename_i isLast
    cases found
    dsimp only at before
    omega
  · rw [get_del] at found
    split at found
    · cases found
    · rename_i notNext
      exact notNext (inv.tiling.eq_of_mem (pieces_of_get found) (pieces_of_get following) first
        before (le_refl _) (by omega))

/-- A reservation that wraps around claims to have handed out more than the device has. -/
theorem not_contract_of_wrap (small : size < 2 ^ 64) (wraps : 2 ^ 64 ≤ last.length + size) :
    ¬ ReserveContract a N size (some last) commit := by
  have inside := inv.le following
  have totalEq : u64 (last.length + size) = last.length + size - 2 ^ 64 := by
    unfold u64
    omega
  have below : u64 (e.length + size) < e.length + next.length := by
    rw [length]
    omega
  have resultEq : u64 (last.length + size - 2 ^ 64 + 2 ^ 64 - last.length) = size := by
    unfold u64
    omega
  have following' := following
  rw [← length] at following'
  have split := splitCandidate_inPlace inv bound commit following' below
  rw [length, totalEq, resultEq] at split
  rintro ⟨n, offset, a', returned, -, -, -, hands⟩
  rw [mtlReserveExtent_of_free inv bound size commit stored length following free, handOut, split]
    at returned
  simp only [Option.some.injEq, Prod.mk.injEq] at returned
  obtain ⟨rfl, -, -⟩ := returned
  obtain ⟨-, o, start, -, hands⟩ := hands (by omega)
  obtain ⟨last', isLast, -, rfl, -⟩ := hands.inPlace ⟨last, rfl, next, following, free⟩
  cases isLast
  obtain ⟨o', block⟩ := hands.wasFree (last.offset + last.length + (size - 1)) (by omega) (by omega)
  have below := inv.block_lt block
  omega

/-- The blocks that `last` had before keep their status only if it is the one asked for. -/
theorem status_of_contract (notFree : e.status ≠ .free) (cut : size < next.length)
    (contract : ReserveContract a N size (some last) commit) : e.status = commitStatus commit := by
  have inside := inv.le following
  have low := inv.pos stored
  have totalEq : u64 (last.length + size) = last.length + size := u64_of_lt (by omega)
  have following' := following
  rw [← length] at following'
  have below : u64 (e.length + size) < e.length + next.length := by
    rw [length, totalEq]
    omega
  have split := splitCandidate_inPlace inv bound commit following' below
  rw [length, totalEq] at split
  obtain ⟨n, offset, a', returned, inv', empty, -, hands⟩ := contract
  rw [mtlReserveExtent_of_free inv bound size commit stored length following free, handOut, split]
    at returned
  simp only [Option.some.injEq, Prod.mk.injEq] at returned
  obtain ⟨-, -, rfl⟩ := returned
  have nonzero : n ≠ 0 := fun zero => empty.mp zero _ _ following free
  obtain ⟨-, o, start, -, hands⟩ := hands nonzero
  obtain ⟨last', isLast, -, rfl, -⟩ := hands.inPlace ⟨last, rfl, next, following, free⟩
  cases isLast
  have same := hands.others last.offset (by omega)
  obtain ⟨x, found, status, -⟩ := (same.2 last.offset e.status notFree).mpr
    ⟨e, stored, rfl, le_refl _, by omega⟩
  rw [reservedInPlace, get_put_self] at found
  cases found
  exact status.symm

end Necessity

/-- From every state with the allocator invariant, a reservation meets its contract exactly if
an extent that it grows in place leaves something of the free extent behind it and has the
status asked for. -/
theorem reserveContract_iff {a : Allocator} {N size : Nat} {lastExtent : Option FileExtent}
    (inv : a.Inv N) (bound : N < 2 ^ 64) (positive : 1 ≤ size) (small : size < 2 ^ 64)
    (lastAllocated : ∀ last ∈ lastExtent, a.Allocated last.offset last.length) (commit : Bool) :
    ReserveContract a N size lastExtent commit ↔ LeavesRest a size lastExtent commit := by
  refine ⟨?_, reserveContract_of_leavesRest inv bound positive small lastAllocated⟩
  rintro contract last rfl next following free
  obtain ⟨e, stored, notFree, length⟩ := lastAllocated last rfl
  have cut : size < next.length := by
    by_contra fills
    rcases Nat.lt_or_ge (last.length + size) (2 ^ 64) with noWrap | wraps
    · exact not_contract_of_fill inv bound stored length following free (by omega) noWrap contract
    · exact not_contract_of_wrap inv bound stored length following free small wraps contract
  refine ⟨cut, ?_⟩
  intro e' stored'
  have same := stored.symm.trans stored'
  cases same
  exact status_of_contract inv bound stored length following free notFree cut contract

/-- One extent of two blocks, committed, in front of one free extent of three blocks. -/
def halfFull : Allocator :=
  ⟨((∅ : OrderedStore Nat Extent).put 2 ⟨3, .free, ⟨3, 2⟩⟩).put 0 ⟨2, .committed, ⟨5, 0⟩⟩,
    (∅ : Heap).put ⟨3, 2⟩ 2⟩

theorem halfFull_inv : halfFull.Inv 5 := by
  have start := Allocator.Inv.initial (N := 5) (by decide)
  have kept := reservedFresh_inv start Nat.two_pos true (get_put_self _ _ _)
  exact kept.congr (fun _ => rfl) (fun _ => rfl)

theorem reserveContract_halfFull : ReserveContract halfFull 5 2 (some ⟨0, 2⟩) true := by
  refine (reserveContract_iff halfFull_inv (by decide) (by decide) (by decide) ?_ true).mpr ?_
  · intro last isLast
    cases isLast
    exact ⟨_, rfl, by decide, rfl⟩
  · intro last isLast next following free
    cases isLast
    have same := (show halfFull.extents.get (0 + 2) = some ⟨3, .free, ⟨3, 2⟩⟩ from rfl).symm.trans
      following
    cases same
    refine ⟨by decide, ?_⟩
    intro e stored
    have same := (show halfFull.extents.get 0 = some ⟨2, .committed, ⟨5, 0⟩⟩ from rfl).symm.trans
      stored
    cases same
    rfl

/-- Growing the extent by all three blocks leaves its stored length. -/
theorem not_reserveContract_halfFull : halfFull.Inv 5 ∧ halfFull.Allocated 0 2 ∧
    ¬ ReserveContract halfFull 5 3 (some ⟨0, 2⟩) true := by
  refine ⟨halfFull_inv, ⟨_, rfl, by decide, rfl⟩, ?_⟩
  have stored : halfFull.extents.get 0 = some ⟨2, .committed, ⟨5, 0⟩⟩ := rfl
  have following : halfFull.extents.get (0 + 2) = some ⟨3, .free, ⟨3, 2⟩⟩ := rfl
  exact not_contract_of_fill halfFull_inv (by decide) stored rfl following rfl (by decide)
    (by decide)

end MetalFs
