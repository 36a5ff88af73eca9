import MetalFs.Filesystem.ExtentSpec
import MetalFs.Lib.Runs

/-!
# Runs of the allocator

The allocator as a state machine: after `mtl_initialize_extents` it serves
reservations, truncations and frees in any order.  `AllocOp.Admissible` is what
the callers promise and `AllocOp.Ok` what keeps the invariant; a run whose steps
are all of both kinds never fails an assertion and never leaves `Allocator.Inv`.
-/

namespace MetalFs

/-- A call of the allocator. -/
inductive AllocOp where
  | reserve (size : Nat) (lastExtent : Option FileExtent) (commit : Bool)
  | truncate (offset len : Nat)
  | free (offset : Nat)
deriving DecidableEq, Repr

/-- The databases after a call. -/
def AllocOp.step (a : Allocator) : AllocOp → Option Allocator
  | reserve size lastExtent commit =>
    (mtlReserveExtent a size lastExtent commit).map fun r => r.2.2
  | truncate offset len => mtlTruncateExtent a offset len
  | free offset => mtlFreeExtent a offset

/-- An extent is stored at `offset` and is not free. -/
def Allocator.IsAllocated (a : Allocator) (offset : Nat) : Prop :=
  ∃ n, a.Allocated offset n

/-- The arguments are 64-bit values, a reservation is for at least one block, and
every extent named in a call is currently allocated. -/
def AllocOp.Admissible (a : Allocator) : AllocOp → Prop
  | reserve size lastExtent _ =>
    1 ≤ size ∧ size < 2 ^ 64 ∧ ∀ last ∈ lastExtent, a.Allocated last.offset last.length
  | truncate offset len => len < 2 ^ 64 ∧ a.IsAllocated offset
  | free offset => a.IsAllocated offset

/-- The call does not reach a branch that loses or duplicates blocks. -/
def AllocOp.Ok (a : Allocator) : AllocOp → Prop
  | reserve size lastExtent _ => ReserveOk a size lastExtent
  | truncate offset len => TruncateOk a offset len
  | free offset => FreeOk a offset

/-! ## Both kinds of conditions can be evaluated -/

instance (a : Allocator) (offset n : Nat) : Decidable (a.Allocated offset n) :=
  decidable_of_iff (∃ e ∈ a.extents.get offset, e.status ≠ .free ∧ e.length = n) Iff.rfl

instance (a : Allocator) (offset : Nat) : Decidable (a.IsAllocated offset) :=
  decidable_of_iff (∃ e ∈ a.extents.get offset, e.status ≠ .free)
    ⟨fun ⟨e, stored, notFree⟩ => ⟨e.length, e, stored, notFree, rfl⟩,
      fun ⟨_, e, stored, notFree, _⟩ => ⟨e, stored, notFree⟩⟩

instance (a : Allocator) (op : AllocOp) : Decidable (op.Admissible a) :=
  match op with
  | .reserve _ _ _ => inferInstanceAs (Decidable (_ ∧ _ ∧ _))
  | .truncate _ _ => inferInstanceAs (Decidable (_ ∧ _))
  | .free offset => inferInstanceAs (Decidable (a.IsAllocated offset))

instance (a : Allocator) (size : Nat) (lastExtent : Option FileExtent) :
    Decidable (ReserveOk a size lastExtent) :=
  inferInstanceAs (Decidable (∀ last ∈ lastExtent, ∀ next ∈ _, _ → _ ∧ _))

instance (a : Allocator) (offset : Nat) : Decidable (FreeOk a offset) :=
  inferInstanceAs (Decidable (∀ extent ∈ _, ∀ next ∈ _, _ → _ ∧ ∀ previous ∈ _, _))

instance (a : Allocator) (offset len : Nat) : Decidable (TruncateOk a offset len) :=
  inferInstanceAs (Decidable (∀ extent ∈ _, _ ∧ (_ → FreeOk _ _) ∧ (_ → _ → FreeOk _ _)))

instance (a : Allocator) (op : AllocOp) : Decidable (op.Ok a) :=
  match op with
  | .reserve size lastExtent _ => inferInstanceAs (Decidable (ReserveOk a size lastExtent))
  | .truncate offset len => inferInstanceAs (Decidable (TruncateOk a offset len))
  | .free offset => inferInstanceAs (Decidable (FreeOk a offset))

/-! ## Whole runs -/

/-- An admissible call that is `Ok` returns and keeps the invariant. -/
theorem AllocOp.step_inv {a : Allocator} {N : Nat} (inv : a.Inv N) (bound : N < 2 ^ 64)
    {op : AllocOp} (admissible : op.Admissible a) (ok : op.Ok a) :
    ∃ a', op.step a = some a' ∧ a'.Inv N := by
  cases op with
  | reserve size lastExtent commit =>
    obtain ⟨positive, small, lastAllocated⟩ := admissible
    obtain ⟨r, reserved, kept⟩ :=
      mtlReserveExtent_inv inv bound positive small commit lastAllocated ok
    exact ⟨r.2.2, by simp only [AllocOp.step, reserved, Option.map_some], kept⟩
  | truncate offset len =>
    obtain ⟨_, _, e, stored, notFree, _⟩ := admissible
    exact mtlTruncateExtent_inv inv bound stored notFree ok
  | free offset =>
    obtain ⟨_, e, stored, notFree, _⟩ := admissible
    exact mtlFreeExtent_inv inv bound stored notFree ok

/-- An empty store after `mtl_initialize_extents`. -/
def freshAllocator (N : Nat) : Allocator := mtlInitializeExtents ⟨∅, ∅⟩ N

/-- Every run of admissible calls that are all `Ok` returns, and the state it
reaches is an exact partition of the blocks with the free extents in the heap. -/
theorem allocator_run_inv {N : Nat} (positive : 1 ≤ N) (bound : N < 2 ^ 64) {ops : List AllocOp}
    (steps : Runs.Steps AllocOp.step (fun a op => op.Admissible a ∧ op.Ok a)
      (freshAllocator N) ops) :
    ∃ a, Runs.run AllocOp.step (freshAllocator N) ops = some a ∧ a.Inv N :=
  Runs.run_of_steps (fun inv allowed => AllocOp.step_inv inv bound allowed.1 allowed.2)
    (Allocator.Inv.initial positive) steps

/-- Reserve twice, grow the second extent in place, cut it, and free both. -/
def reuseRun : List AllocOp :=
  [.reserve 2 none true, .reserve 3 none true, .reserve 4 (some ⟨2, 3⟩) true, .truncate 2 5,
    .free 2, .reserve 1 (some ⟨0, 2⟩) false, .free 0]

theorem allocator_run_inv_reuseRun :
    ∃ a, Runs.run AllocOp.step (freshAllocator 12) reuseRun = some a ∧
      a.Inv 12 :=
  allocator_run_inv (by decide) (by decide) (by decide)

/-- Three extents of one block each, freed in the order middle, last, first. -/
def lostBlocksRun : List AllocOp :=
  [.reserve 1 none true, .reserve 1 none true, .reserve 1 none true, .free 1, .free 2, .free 0]

/-- Freeing the first extent merges the two free extents behind it into the last
one, and the freed blocks are in no extent any more. -/
theorem lostBlocksRun_not_partition :
    Runs.Steps AllocOp.step (fun a op => op.Admissible a)
        (freshAllocator 3) lostBlocksRun ∧
      ∃ a, Runs.run AllocOp.step (freshAllocator 3) lostBlocksRun = some a ∧
        ¬ a.Inv 3 := by
  refine ⟨by decide, ?_⟩
  obtain ⟨a, reached, absent⟩ : ∃ a, Runs.run AllocOp.step
      (freshAllocator 3) lostBlocksRun = some a ∧ a.extents.get 0 = none := by decide
  refine ⟨a, reached, fun inv => ?_⟩
  obtain ⟨offset, n, piece, low, _⟩ := inv.tiling.covered (x := 0) (by decide)
  obtain rfl : offset = 0 := by omega
  rw [pieces, absent] at piece
  cases piece

end MetalFs
