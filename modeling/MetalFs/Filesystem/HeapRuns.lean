import MetalFs.Filesystem.Heap
import MetalFs.Lib.Runs

/-!
# Runs of the heap

The priority queue of `heap.c` under any sequence of its calls.

* `mtlHeapExtractMax` takes the last node in the byte order of the node ids, which is the one
  with the largest key only if that key is also the last one in byte order
  (`extracts_max_iff_byteOrder`);
* `mtlHeapIncreaseKey` puts the node back with the value `0`
  (`keeps_values_iff_rekeyed_zero`).
-/

namespace MetalFs

open OrderedStore

/-- A call of the heap. -/
inductive HeapOp where
  | insert (key value : Nat)
  | delete (nodeId : HeapNodeId)
  | increaseKey (nodeId : HeapNodeId) (key : Nat)
  | extractMax
deriving DecidableEq, Repr

namespace HeapOp

/-- The heap after a call. -/
def apply (heap : Heap) : HeapOp → Heap
  | insert key value => (mtlHeapInsert heap key value).2
  | delete nodeId => (mtlHeapDelete heap nodeId).2
  | increaseKey nodeId key => (mtlHeapIncreaseKey heap nodeId key).2.2
  | extractMax => (mtlHeapExtractMax heap).2.2

/-- The arguments are 64-bit values. -/
def Fits : HeapOp → Prop
  | insert key value => key < 2 ^ 64 ∧ value < 2 ^ 64
  | delete nodeId => nodeId.k < 2 ^ 64 ∧ nodeId.v < 2 ^ 64
  | increaseKey nodeId key => nodeId.k < 2 ^ 64 ∧ nodeId.v < 2 ^ 64 ∧ key < 2 ^ 64
  | extractMax => True

instance (op : HeapOp) : Decidable op.Fits :=
  match op with
  | insert _ _ => inferInstanceAs (Decidable (_ ∧ _))
  | delete _ => inferInstanceAs (Decidable (_ ∧ _))
  | increaseKey _ _ => inferInstanceAs (Decidable (_ ∧ _ ∧ _))
  | extractMax => inferInstanceAs (Decidable True)

end HeapOp

/-! ## What is stored -/

/-- The pair is in the heap. -/
def Heap.Holds (heap : Heap) (id : HeapNodeId) : Prop := heap.get id = some id.v

instance (heap : Heap) (id : HeapNodeId) : Decidable (heap.Holds id) :=
  inferInstanceAs (Decidable (_ = _))

/-- Every node stores the value of its id, and both are 64-bit values. -/
structure Heap.Tidy (heap : Heap) : Prop where
  stored : ∀ {id value}, heap.get id = some value → value = id.v ∧ id.k < 2 ^ 64 ∧ id.v < 2 ^ 64

variable {heap : Heap}

theorem Heap.Tidy.holds (tidy : heap.Tidy) {id : HeapNodeId} {value : Nat}
    (found : heap.get id = some value) : heap.Holds id :=
  found.trans (congrArg some (tidy.stored found).1)

theorem Heap.Tidy.get_eq_none (tidy : heap.Tidy) {id : HeapNodeId} (absent : ¬ heap.Holds id) :
    heap.get id = none := by
  cases found : heap.get id with
  | none => rfl
  | some value => exact absurd (tidy.holds found) absent

theorem tidy_empty : Heap.Tidy ∅ := by
  constructor
  intro id value found
  cases found

theorem Heap.Tidy.del (tidy : heap.Tidy) (id : HeapNodeId) : Heap.Tidy (heap.del id) := by
  constructor
  intro other value found
  rw [get_del] at found
  split at found
  · cases found
  · exact tidy.stored found

theorem Heap.Tidy.insert (tidy : heap.Tidy) {key value : Nat} (small : key < 2 ^ 64)
    (valueSmall : value < 2 ^ 64) : Heap.Tidy (heap.put ⟨key, value⟩ value) := by
  constructor
  intro id stored found
  rw [get_put] at found
  split at found
  · rename_i same
    cases found
    rw [same]
    exact ⟨rfl, small, valueSmall⟩
  · exact tidy.stored found

theorem mtlHeapDelete_of_none {nodeId : HeapNodeId} (absent : heap.get nodeId = none) :
    mtlHeapDelete heap nodeId = (.errorInvalidArgument, heap) := by
  simp only [mtlHeapDelete, absent]

theorem mtlHeapIncreaseKey_of_get {nodeId : HeapNodeId} {value : Nat}
    (found : heap.get nodeId = some value) (key : Nat) :
    mtlHeapIncreaseKey heap nodeId key =
      (.success, some ⟨key, 0⟩, (heap.del nodeId).put ⟨key, 0⟩ 0) := by
  simp only [mtlHeapIncreaseKey, mtlHeapDelete_of_get found, mtlHeapInsert]

theorem mtlHeapIncreaseKey_of_none {nodeId : HeapNodeId} (absent : heap.get nodeId = none)
    (key : Nat) : mtlHeapIncreaseKey heap nodeId key = (.errorInvalidArgument, none, heap) := by
  simp only [mtlHeapIncreaseKey, mtlHeapDelete_of_none absent]

theorem Heap.Tidy.apply (tidy : heap.Tidy) {op : HeapOp} (fits : op.Fits) :
    Heap.Tidy (op.apply heap) := by
  cases op with
  | insert key value => exact tidy.insert fits.1 fits.2
  | delete nodeId =>
    cases found : heap.get nodeId with
    | none =>
      rw [HeapOp.apply, mtlHeapDelete_of_none found]
      exact tidy
    | some value =>
      rw [HeapOp.apply, mtlHeapDelete_of_get found]
      exact tidy.del nodeId
  | increaseKey nodeId key =>
    cases found : heap.get nodeId with
    | none =>
      rw [HeapOp.apply, mtlHeapIncreaseKey_of_none found]
      exact tidy
    | some value =>
      rw [HeapOp.apply, mtlHeapIncreaseKey_of_get found]
      exact (tidy.del nodeId).insert fits.2.2 (Nat.two_pow_pos 64)
  | extractMax =>
    rcases mtlHeapExtractMax_cases heap with ⟨empty, -⟩ | ⟨id, value, -, extracted⟩
    · rw [HeapOp.apply, empty]
      exact tidy
    · rw [HeapOp.apply, extracted]
      exact tidy.del id

/-! ## The largest key -/

/-- Equally long words are compared before what follows them. -/
theorem append_lt_append {a b : List Byte} (same : a.length = b.length) (less : a < b)
    (x y : List Byte) : a ++ x < b ++ y := by
  induction a generalizing b with
  | nil =>
    rw [List.length_eq_zero_iff.mp same.symm] at less
    exact absurd less (lt_irrefl _)
  | cons first a ih =>
    cases b with
    | nil => cases same
    | cons second b =>
      rw [List.cons_append, List.cons_append, List.cons_lt_cons_iff]
      rcases List.cons_lt_cons_iff.mp less with smaller | ⟨rfl, rest⟩
      · exact Or.inl smaller
      · exact Or.inr ⟨rfl, ih (Nat.succ.inj same) rest⟩

/-- The node that is taken comes last in the byte order of the keys. -/
theorem key_le_of_last {top : HeapNodeId} {value : Nat}
    (greatest : heap.last HeapNodeId.bytes = some (top, value)) {id : HeapNodeId} {stored : Nat}
    (found : heap.get id = some stored) : leBytes 8 id.k ≤ leBytes 8 top.k := by
  have order : id.bytes ≤ top.bytes := le_of_last greatest (mem_entries_of_get.mp found)
  by_contra more
  have length : (leBytes 8 top.k).length = (leBytes 8 id.k).length := by
    rw [length_leBytes, length_leBytes]
  exact absurd order (not_le.mpr (append_lt_append length (not_le.mp more) _ _))

/-- A pair with a largest key is taken, and only this pair. -/
structure ExtractsMax (heap : Heap) : Prop where
  empty : (mtlHeapExtractMax heap).1 = .errorNoentry ↔ ∀ id, ¬ heap.Holds id
  top : ∀ {id}, heap.Holds id → ∃ top : HeapNodeId, heap.Holds top ∧
    (∀ other, heap.Holds other → other.k ≤ top.k) ∧
    (mtlHeapExtractMax heap).1 = .success ∧ (mtlHeapExtractMax heap).2.1 = some top.v ∧
    ∀ other, (mtlHeapExtractMax heap).2.2.Holds other ↔ other ≠ top ∧ heap.Holds other

/-- Some pair has the largest key in number and in byte order. -/
def LargestInBothOrders (heap : Heap) : Prop :=
  ∀ id, heap.Holds id → ∃ top : HeapNodeId, heap.Holds top ∧
    ∀ other : HeapNodeId, heap.Holds other →
      other.k ≤ top.k ∧ leBytes 8 other.k ≤ leBytes 8 top.k

instance (heap : Heap) : Decidable (LargestInBothOrders heap) :=
  decidable_of_iff (∀ e ∈ heap.entries, heap.Holds e.1 → ∃ top ∈ heap.entries, heap.Holds top.1 ∧
      ∀ other ∈ heap.entries, heap.Holds other.1 →
        other.1.k ≤ top.1.k ∧ leBytes 8 other.1.k ≤ leBytes 8 top.1.k)
    (by
      constructor
      · intro listed id held
        obtain ⟨top, -, topHeld, largest⟩ := listed _ (mem_entries_of_get.mp held) held
        exact ⟨top.1, topHeld, fun other stored =>
          largest _ (mem_entries_of_get.mp stored) stored⟩
      · intro both e member held
        obtain ⟨top, topHeld, largest⟩ := both e.1 held
        exact ⟨_, mem_entries_of_get.mp topHeld, topHeld, fun other _ stored =>
          largest other.1 stored⟩)

theorem holds_del (heap : Heap) (top id : HeapNodeId) :
    Heap.Holds (heap.del top) id ↔ id ≠ top ∧ heap.Holds id := by
  unfold Heap.Holds
  rw [get_del]
  split
  · rename_i same
    constructor
    · intro no
      cases no
    · exact fun other => absurd same other.1
  · rename_i other
    exact ⟨fun found => ⟨other, found⟩, fun found => found.2⟩

theorem extractsMax_iff (tidy : heap.Tidy) : ExtractsMax heap ↔ LargestInBothOrders heap := by
  cases greatest : heap.last HeapNodeId.bytes with
  | none =>
    have absent := get_eq_none_of_last greatest
    have nothing : ∀ id, ¬ heap.Holds id := by
      intro id held
      rw [Heap.Holds, absent] at held
      cases held
    have extracted : mtlHeapExtractMax heap = (.errorNoentry, none, heap) := by
      simp only [mtlHeapExtractMax, greatest]
    refine ⟨fun _ id held => absurd held (nothing id), fun _ => ⟨?_, ?_⟩⟩
    · rw [extracted]
      exact ⟨fun _ => nothing, fun _ => rfl⟩
    · exact fun held => absurd held (nothing _)
  | some entry =>
    obtain ⟨last, value⟩ := entry
    have found := get_of_last greatest
    have held := tidy.holds found
    obtain ⟨rfl, small, -⟩ := tidy.stored found
    have extracted : mtlHeapExtractMax heap = (.success, some last.v, heap.del last) := by
      simp only [mtlHeapExtractMax, greatest, mtlHeapDelete_of_get found]
    constructor
    · intro extracts id some
      obtain ⟨top, topHeld, largest, -, -, left⟩ := extracts.top some
      -- Only `last` is gone, so that it is the pair with the largest key.
      have same : top = last := by
        by_contra other
        rw [extracted] at left
        exact ((left top).mp ((holds_del heap last top).mpr ⟨other, topHeld⟩)).1 rfl
      rw [← same] at greatest
      exact ⟨top, topHeld, fun other stored =>
        ⟨largest other stored, key_le_of_last greatest stored⟩⟩
    · intro both
      refine ⟨?_, ?_⟩
      · rw [extracted]
        exact ⟨MtlCode.noConfusion, fun nothing => absurd held (nothing last)⟩
      · intro id some
        obtain ⟨top, topHeld, largest⟩ := both id some
        have sameBytes : leBytes 8 last.k = leBytes 8 top.k :=
          le_antisymm (largest last held).2 (key_le_of_last greatest topHeld)
        have sameKey : last.k = top.k :=
          leBytes_inj small (tidy.stored topHeld).2.1 sameBytes
        rw [extracted]
        refine ⟨last, held, ?_, rfl, rfl, fun other => holds_del heap last other⟩
        intro other stored
        rw [sameKey]
        exact (largest other stored).1

/-- What a call of the heap is to do with the pairs in it. -/
def HeapOp.Correct (heap : Heap) : HeapOp → Prop
  | insert key value =>
    ∀ id, Heap.Holds (apply heap (insert key value)) id ↔ id = ⟨key, value⟩ ∨ heap.Holds id
  | delete nodeId => ∀ id, Heap.Holds (apply heap (delete nodeId)) id ↔ id ≠ nodeId ∧ heap.Holds id
  | extractMax => ExtractsMax heap
  | increaseKey _ _ => True

/-- A maximum is only taken when the two orders agree on it. -/
def HeapOp.Agrees (heap : Heap) (op : HeapOp) : Prop := op = extractMax → LargestInBothOrders heap

/-- The call re-keys a node. -/
def HeapOp.rekeys : HeapOp → Bool
  | increaseKey _ _ => true
  | _ => false

/-- The call is one of a priority queue without re-keying, with 64-bit arguments. -/
def HeapOp.Plain (op : HeapOp) : Prop := op.Fits ∧ op.rekeys = false

instance (op : HeapOp) : Decidable op.Plain := inferInstanceAs (Decidable (_ ∧ _))

theorem HeapOp.correct_insert (heap : Heap) (key value : Nat) :
    (insert key value).Correct heap := by
  intro id
  change (heap.put ⟨key, value⟩ value).get id = some id.v ↔ _
  rw [get_put]
  split
  · rename_i same
    rw [same]
    exact ⟨fun _ => Or.inl rfl, fun _ => rfl⟩
  · rename_i other
    exact ⟨Or.inr, fun held => held.resolve_left other⟩

theorem HeapOp.correct_delete (heap : Heap) (nodeId : HeapNodeId) :
    (delete nodeId).Correct heap := by
  intro id
  cases found : heap.get nodeId with
  | none =>
    rw [apply, mtlHeapDelete_of_none found]
    refine ⟨fun held => ⟨?_, held⟩, fun held => held.2⟩
    rintro rfl
    rw [Heap.Holds, found] at held
    cases held
  | some value =>
    rw [apply, mtlHeapDelete_of_get found]
    exact holds_del heap nodeId id

theorem HeapOp.correct_iff (tidy : heap.Tidy) {op : HeapOp} (plain : op.Plain) :
    op.Correct heap ↔ op.Agrees heap := by
  cases op with
  | insert key value =>
    exact ⟨fun _ no => HeapOp.noConfusion no, fun _ => correct_insert heap key value⟩
  | delete nodeId =>
    exact ⟨fun _ no => HeapOp.noConfusion no, fun _ => correct_delete heap nodeId⟩
  | increaseKey nodeId key => exact Bool.noConfusion plain.2
  | extractMax =>
    exact (extractsMax_iff tidy).trans ⟨fun both _ => both, fun agrees => agrees rfl⟩

/-- The heap after a call, as a step of a run. -/
def HeapOp.step (heap : Heap) (op : HeapOp) : Option Heap := some (op.apply heap)

/-- In every run from an empty heap, every call does what a priority queue does exactly if
every maximum is taken from a heap in which the largest key is also last in byte order. -/
theorem extracts_max_iff_byteOrder {ops : List HeapOp} (plain : ∀ op ∈ ops, op.Plain) :
    Runs.Steps HeapOp.step (fun heap op => op.Correct heap) ∅ ops ↔
      Runs.Steps HeapOp.step (fun heap op => op.Agrees heap) ∅ ops := by
  refine Runs.steps_congr (A := fun _ op => op.Plain) (I := Heap.Tidy)
    (fun tidy fits => HeapOp.correct_iff tidy fits) ?_ tidy_empty (Runs.Steps.of_forall plain)
  intro heap op heap' tidy fits _ returned
  cases returned
  exact tidy.apply fits.1

instance (heap : Heap) (op : HeapOp) : Decidable (op.Agrees heap) :=
  inferInstanceAs (Decidable (_ → _))

/-- Three pairs whose keys differ in the low byte only. -/
def lowByteRun : List HeapOp :=
  [.insert 515 10, .insert 519 20, .insert 512 30, .extractMax, .delete ⟨512, 30⟩, .extractMax,
    .extractMax]

theorem extracts_max_lowByteRun :
    Runs.Steps HeapOp.step (fun heap op => op.Correct heap) ∅ lowByteRun :=
  (extracts_max_iff_byteOrder (by decide)).mpr (by decide +kernel)

/-- The key 256 has the lowest byte zero. -/
theorem extracts_max_fails_second_byte :
    ¬ Runs.Steps HeapOp.step (fun heap op => op.Correct heap) ∅
      [.insert 1 10, .insert 256 20, .extractMax] := by
  rintro ⟨-, later⟩
  obtain ⟨-, later⟩ := later _ rfl
  have extracts : ExtractsMax _ := (later _ rfl).1
  have first : Heap.Tidy (HeapOp.apply ∅ (.insert 1 10)) := tidy_empty.apply (by decide)
  have tidy : Heap.Tidy (HeapOp.apply (HeapOp.apply ∅ (.insert 1 10)) (.insert 256 20)) :=
    first.apply (by decide)
  have both := (extractsMax_iff tidy).mp extracts
  revert both
  decide +kernel

/-! ## The values in the heap -/

/-- The heap with the values that were inserted and neither deleted nor extracted. -/
structure HeapState where
  heap : Heap
  live : Multiset Nat

/-- A call, with its effect on the live values. -/
def HeapState.step (s : HeapState) (op : HeapOp) : Option HeapState :=
  some
    { heap := op.apply s.heap
      live := match op with
        | .insert _ value => value ::ₘ s.live
        | .delete nodeId => ((s.heap.get nodeId).map s.live.erase).getD s.live
        | .increaseKey _ _ => s.live
        | .extractMax => ((mtlHeapExtractMax s.heap).2.1.map s.live.erase).getD s.live }

/-- The arguments are 64-bit values, an inserted value is not live, and a node id is. -/
def HeapState.Admits (s : HeapState) (op : HeapOp) : Prop :=
  op.Fits ∧ match op with
    | .insert _ value => value ∉ s.live
    | .delete nodeId | .increaseKey nodeId _ => s.heap.Holds nodeId
    | .extractMax => True

/-- The heap has the values that are live. -/
def HeapState.Faithful (s : HeapState) : Prop := values s.heap = s.live

/-- A call leaves the values that are live, and a re-keyed node can be used for the same
element. -/
def HeapState.Keeps (s : HeapState) (op : HeapOp) : Prop :=
  (∀ s' ∈ s.step op, s'.Faithful) ∧
    ∀ nodeId key, op = .increaseKey nodeId key →
      ∃ updated, (mtlHeapIncreaseKey s.heap nodeId key).2.1 = some updated ∧
        (op.apply s.heap).get updated = s.heap.get nodeId

/-- Only nodes with the value `0` are re-keyed. -/
def HeapState.RekeysZero (_ : HeapState) : HeapOp → Prop
  | .increaseKey nodeId _ => nodeId.v = 0
  | _ => True

instance (s : HeapState) (op : HeapOp) : Decidable (s.RekeysZero op) :=
  match op with
  | .increaseKey nodeId _ => inferInstanceAs (Decidable (nodeId.v = 0))
  | .insert _ _ | .delete _ | .extractMax => inferInstanceAs (Decidable True)

instance (s : HeapState) (op : HeapOp) : Decidable (s.Admits op) :=
  match op with
  | .insert _ value => inferInstanceAs (Decidable (_ ∧ value ∉ s.live))
  | .delete nodeId | .increaseKey nodeId _ => inferInstanceAs (Decidable (_ ∧ s.heap.Holds nodeId))
  | .extractMax => inferInstanceAs (Decidable (_ ∧ True))

/-- What holds as long as the heap has the live values. -/
structure HeapState.Inv (s : HeapState) : Prop where
  tidy : s.heap.Tidy
  faithful : s.Faithful
  distinct : s.live.Nodup

variable {s s' : HeapState} {nodeId : HeapNodeId} {key : Nat}

theorem HeapState.Inv.live_of_get (inv : s.Inv) {value : Nat}
    (found : s.heap.get nodeId = some value) :
    s.live = value ::ₘ values (s.heap.del nodeId) :=
  inv.faithful.symm.trans (values_of_get found)

/-- Putting a node back with the value `0` adds no other value. -/
theorem count_rekeyed (tidy : heap.Tidy) {value : Nat} (nonzero : value ≠ 0) :
    (values (heap.put ⟨key, 0⟩ 0)).count value = (values heap).count value := by
  cases found : heap.get ⟨key, 0⟩ with
  | none => rw [values_put_of_none found, Multiset.count_cons_of_ne nonzero]
  | some stored =>
    obtain ⟨rfl, -, -⟩ := tidy.stored found
    rw [values_put_of_get found]

/-- After its node is taken out, no node has the value `0`. -/
theorem HeapState.Inv.absent_of_zero (inv : s.Inv) (found : s.heap.get nodeId = some 0) :
    (s.heap.del nodeId).get ⟨key, 0⟩ = none := by
  have distinct := inv.distinct
  rw [inv.live_of_get found, Multiset.nodup_cons] at distinct
  cases stored : (s.heap.del nodeId).get ⟨key, 0⟩ with
  | none => rfl
  | some value =>
    obtain ⟨rfl, -, -⟩ := (inv.tidy.del nodeId).stored stored
    exact absurd (mem_values.mpr ⟨_, stored⟩) distinct.1

/-- Re-keying keeps the values exactly for the value `0`. -/
theorem HeapState.Inv.keeps_increaseKey (inv : s.Inv) (held : s.heap.Holds nodeId) :
    s.Keeps (.increaseKey nodeId key) ↔ nodeId.v = 0 := by
  have rekeyed := mtlHeapIncreaseKey_of_get held key
  have after : HeapOp.apply s.heap (.increaseKey nodeId key) =
      (s.heap.del nodeId).put ⟨key, 0⟩ 0 := by
    rw [HeapOp.apply, rekeyed]
  constructor
  · rintro ⟨faithful, -⟩
    have same : values ((s.heap.del nodeId).put ⟨key, 0⟩ 0) = s.live := by
      rw [← after]
      exact faithful _ rfl
    by_contra nonzero
    have fewer := congrArg (Multiset.count nodeId.v) same
    rw [count_rekeyed (inv.tidy.del nodeId) nonzero, inv.live_of_get held,
      Multiset.count_cons_self] at fewer
    omega
  · intro zero
    have found : s.heap.get nodeId = some 0 := held.trans (congrArg some zero)
    constructor
    · rintro s' returned
      cases returned
      change values (HeapOp.apply s.heap (.increaseKey nodeId key)) = s.live
      rw [after, values_put_of_none (inv.absent_of_zero found), inv.live_of_get found]
    · rintro other key' same
      cases same
      refine ⟨⟨key, 0⟩, by rw [rekeyed], ?_⟩
      rw [after, get_put_self, found]

/-- The other calls keep the values. -/
theorem HeapState.Inv.faithful_step (inv : s.Inv) {op : HeapOp} (admits : s.Admits op)
    (plain : op.rekeys = false) (returned : s.step op = some s') : s'.Faithful := by
  cases returned
  cases op with
  | insert key value =>
    have absent : s.heap.get ⟨key, value⟩ = none := by
      apply inv.tidy.get_eq_none
      intro held
      have stored : value ∈ values s.heap := mem_values.mpr ⟨_, held⟩
      rw [inv.faithful] at stored
      exact admits.2 stored
    change values (s.heap.put ⟨key, value⟩ value) = value ::ₘ s.live
    rw [values_put_of_none absent, inv.faithful]
  | delete nodeId =>
    have held : s.heap.get nodeId = some nodeId.v := admits.2
    change values (mtlHeapDelete s.heap nodeId).2 =
      ((s.heap.get nodeId).map s.live.erase).getD s.live
    rw [mtlHeapDelete_of_get held, held, Option.map_some, Option.getD_some, inv.live_of_get held,
      Multiset.erase_cons_head]
  | increaseKey nodeId key => exact Bool.noConfusion plain
  | extractMax =>
    change values (mtlHeapExtractMax s.heap).2.2 =
      ((mtlHeapExtractMax s.heap).2.1.map s.live.erase).getD s.live
    rcases mtlHeapExtractMax_cases s.heap with ⟨empty, -⟩ | ⟨id, value, found, extracted⟩
    · rw [empty]
      exact inv.faithful
    · rw [extracted]
      change values (s.heap.del id) = s.live.erase value
      rw [inv.live_of_get found, Multiset.erase_cons_head]

theorem HeapState.Inv.keeps_iff (inv : s.Inv) {op : HeapOp} (admits : s.Admits op) :
    s.Keeps op ↔ s.RekeysZero op := by
  have plainly : op.rekeys = false → s.Keeps op := by
    intro plain
    refine ⟨fun _ returned => inv.faithful_step admits plain returned, ?_⟩
    rintro nodeId key rfl
    cases plain
  cases op with
  | increaseKey nodeId key => exact inv.keeps_increaseKey admits.2
  | insert key value => exact ⟨fun _ => trivial, fun _ => plainly rfl⟩
  | delete nodeId => exact ⟨fun _ => trivial, fun _ => plainly rfl⟩
  | extractMax => exact ⟨fun _ => trivial, fun _ => plainly rfl⟩

theorem HeapState.Inv.step (inv : s.Inv) {op : HeapOp} (admits : s.Admits op) (keeps : s.Keeps op)
    (returned : s.step op = some s') : s'.Inv := by
  refine ⟨?_, keeps.1 s' returned, ?_⟩
  · cases returned
    exact inv.tidy.apply admits.1
  · cases returned
    have erased : ∀ value : Option Nat, ((value.map s.live.erase).getD s.live).Nodup := by
      intro value
      cases value with
      | none => exact inv.distinct
      | some value => exact inv.distinct.erase value
    cases op with
    | insert key value => exact Multiset.nodup_cons.mpr ⟨admits.2, inv.distinct⟩
    | delete nodeId => exact erased _
    | increaseKey nodeId key => exact inv.distinct
    | extractMax => exact erased _

/-- Nothing is stored. -/
def HeapState.empty : HeapState := ⟨∅, 0⟩

/-- In every run from an empty heap with distinct values and live node ids, the heap has the
live values after each call exactly if only nodes with the value `0` are re-keyed. -/
theorem keeps_values_iff_rekeyed_zero {ops : List HeapOp}
    (admitted : Runs.Steps HeapState.step HeapState.Admits .empty ops) :
    Runs.Steps HeapState.step HeapState.Keeps .empty ops ↔
      Runs.Steps HeapState.step HeapState.RekeysZero .empty ops :=
  Runs.steps_congr (fun inv admits => inv.keeps_iff admits)
    (fun inv admits keeps returned => inv.step admits keeps returned)
    (⟨tidy_empty, rfl, Multiset.nodup_zero⟩ : HeapState.Inv .empty) admitted

/-- The node of the value `0` is re-keyed and then deleted. -/
def rekeyRun : List HeapOp :=
  [.insert 5 7, .insert 9 0, .increaseKey ⟨9, 0⟩ 3, .delete ⟨3, 0⟩, .extractMax]

theorem keeps_values_rekeyRun : Runs.Steps HeapState.step HeapState.Admits .empty rekeyRun ∧
    Runs.Steps HeapState.step HeapState.Keeps .empty rekeyRun :=
  ⟨by decide +kernel, (keeps_values_iff_rekeyed_zero (by decide +kernel)).mpr (by decide +kernel)⟩

/-- Re-keying the node of the value `7` leaves the value `0`. -/
theorem rekeyed_value_lost :
    Runs.Steps HeapState.step HeapState.Admits .empty [.insert 5 7, .increaseKey ⟨5, 7⟩ 9] ∧
      ¬ Runs.Steps HeapState.step HeapState.Keeps .empty
        [.insert 5 7, .increaseKey ⟨5, 7⟩ 9] := by
  refine ⟨by decide +kernel, ?_⟩
  rintro ⟨-, later⟩
  have faithful := (later _ rfl).1.1 _ rfl
  revert faithful
  unfold HeapState.Faithful
  decide +kernel

end MetalFs
