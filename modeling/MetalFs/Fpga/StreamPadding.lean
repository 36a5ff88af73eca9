import MetalFs.Lib.ShiftRegister

/-!
# Padding of streams

`insert_padding` puts lanes that are not kept in front of the first byte of a packet, so that every
byte moves up and the last ones may need a beat of their own.  `remove_padding` moves the bytes back
and drops that beat.  Both carry a part of an element over to the next pass of their loop.
-/

namespace MetalFs.Fpga

open ShiftRegister

/-- `mtl_stream_element`, for a width of `streamBytes` lanes. -/
@[ext]
structure MtlStreamElement (streamBytes : Nat) where
  data : BitVec (8 * streamBytes)
  keep : BitVec streamBytes
  last : Bool
deriving DecidableEq, Repr

variable {streamBytes : Nat}

namespace MtlStreamElement

/-- `{ 0, 0, 0 }`. -/
def zero : MtlStreamElement streamBytes := ⟨0, 0, false⟩

/-- A byte of the data. -/
def lane (element : MtlStreamElement streamBytes) (i : Nat) : BitVec 8 :=
  element.data.extractLsb' (8 * i) 8

/-- The byte is part of the packet. -/
def Kept (element : MtlStreamElement streamBytes) (i : Nat) : Prop := element.keep.getLsbD i = true

end MtlStreamElement

/-! ## The functions -/

/-- The loop of `insert_padding` and what follows it: what is written to `out`, and what is left in
`in`. -/
def insertPaddingLoop (bytes : Nat) (currentElement nextElement : MtlStreamElement streamBytes) :
    List (MtlStreamElement streamBytes) →
      Option (List (MtlStreamElement streamBytes) × List (MtlStreamElement streamBytes))
  | [] => none
  | element :: input =>
    let wordBytes := streamBytes
    let data := setRange currentElement.data (wordBytes * 8 - 1) (bytes * 8)
      (range element.data ((wordBytes - bytes) * 8 - 1) 0)
    let keep := setRange currentElement.keep (wordBytes - 1) bytes
      (range element.keep (wordBytes - bytes - 1) 0)
    let nextElement : MtlStreamElement streamBytes :=
      { nextElement with
        data := setRange nextElement.data (bytes * 8 - 1) 0
          (range element.data (wordBytes * 8 - 1) ((wordBytes - bytes) * 8))
        keep := setRange nextElement.keep (bytes - 1) 0
          (range element.keep (wordBytes - 1) (wordBytes - bytes)) }
    let currentElement := ⟨data, keep, element.last && nextElement.keep == 0⟩
    if element.last then
      let flushed := if nextElement.keep ≠ 0 then [{ nextElement with last := true }] else []
      some (currentElement :: flushed, input)
    else
      (insertPaddingLoop bytes nextElement nextElement input).map fun rest =>
        (currentElement :: rest.1, rest.2)

/-- `insert_padding`; `none` if it waits for ever on `in`. -/
def insertPadding (bytes : Nat) (input : List (MtlStreamElement streamBytes)) :
    Option (List (MtlStreamElement streamBytes) × List (MtlStreamElement streamBytes)) :=
  insertPaddingLoop bytes .zero .zero input

/-- The loop of `remove_padding`. -/
def removePaddingLoop (bytes : Nat) (previousElement outElement : MtlStreamElement streamBytes)
    (previousElementValid : Bool) : List (MtlStreamElement streamBytes) →
      Option (List (MtlStreamElement streamBytes) × List (MtlStreamElement streamBytes))
  | [] => none
  | currentElement :: input =>
    let wordBytes := streamBytes
    let data := setRange
      (setRange outElement.data ((wordBytes - bytes) * 8 - 1) 0
        (range previousElement.data (wordBytes * 8 - 1) (bytes * 8)))
      (wordBytes * 8 - 1) ((wordBytes - bytes) * 8) (range currentElement.data (bytes * 8 - 1) 0)
    let keep := setRange
      (setRange outElement.keep (wordBytes - bytes - 1) 0
        (range previousElement.keep (wordBytes - 1) bytes))
      (wordBytes - 1) (wordBytes - bytes) (range currentElement.keep (bytes - 1) 0)
    let outElement : MtlStreamElement streamBytes :=
      ⟨data, keep, currentElement.last && range currentElement.keep (wordBytes - 1) bytes == 0⟩
    let written := if previousElementValid || outElement.last then [outElement] else []
    if currentElement.last then
      -- Flush remaining bytes
      let flushed := if !outElement.last then
          [{ currentElement with
            data := currentElement.data >>> (bytes * 8)
            keep := currentElement.keep >>> bytes }]
        else []
      some (written ++ flushed, input)
    else
      let previousElement :=
        { previousElement with data := currentElement.data, keep := currentElement.keep }
      (removePaddingLoop bytes previousElement outElement true input).map fun rest =>
        (written ++ rest.1, rest.2)

/-- `remove_padding`, with what its uninitialised variables hold. -/
def removePadding (bytes : Nat) (previousElement outElement : MtlStreamElement streamBytes)
    (input : List (MtlStreamElement streamBytes)) :
    Option (List (MtlStreamElement streamBytes) × List (MtlStreamElement streamBytes)) :=
  removePaddingLoop bytes previousElement outElement false input

/-- A packet: only its final element is the last one, and it keeps a byte. -/
inductive IsPacket : List (MtlStreamElement streamBytes) → Prop
  | final {element : MtlStreamElement streamBytes} (last : element.last = true)
      (keeps : element.keep ≠ 0) : IsPacket [element]
  | cons {element : MtlStreamElement streamBytes} {packet : List (MtlStreamElement streamBytes)}
      (notLast : element.last = false) (rest : IsPacket packet) : IsPacket (element :: packet)

/-- The same lanes are kept, with the same bytes. -/
structure SameKept (element element' : MtlStreamElement streamBytes) : Prop where
  keep : element'.keep = element.keep
  last : element'.last = element.last
  lane : ∀ i, element.Kept i → element'.lane i = element.lane i

variable {bytes : Nat} {carry previous out element element' x y :
  MtlStreamElement streamBytes} {packet pending input later : List (MtlStreamElement streamBytes)}

namespace MtlStreamElement

/-! ## Shifting elements -/

/-- What is carried over to the next element. -/
def spill (bytes : Nat) (element : MtlStreamElement streamBytes) : MtlStreamElement streamBytes :=
  ⟨ShiftRegister.spill (bytes * 8) element.data, ShiftRegister.spill bytes element.keep, false⟩

/-- The element behind the bytes that are carried over. -/
def shiftIn (bytes : Nat) (element carry : MtlStreamElement streamBytes) :
    MtlStreamElement streamBytes :=
  ⟨ShiftRegister.shiftIn (bytes * 8) carry.data element.data,
    ShiftRegister.shiftIn bytes carry.keep element.keep,
    element.last && (spill bytes element).keep == 0⟩

/-- An element put together from two neighbours. -/
def shiftOut (bytes : Nat) (previous element : MtlStreamElement streamBytes) :
    MtlStreamElement streamBytes :=
  ⟨ShiftRegister.shiftOut (bytes * 8) previous.data element.data,
    ShiftRegister.shiftOut bytes previous.keep element.keep,
    element.last && element.keep >>> bytes == 0⟩

/-- Only lanes of the padding are set. -/
structure Clean (bytes : Nat) (carry : MtlStreamElement streamBytes) : Prop where
  data : carry.data >>> (bytes * 8) = 0#(8 * streamBytes)
  keep : carry.keep >>> bytes = 0
  last : carry.last = false

theorem clean_zero : Clean bytes (zero : MtlStreamElement streamBytes) :=
  ⟨BitVec.zero_ushiftRight, BitVec.zero_ushiftRight, rfl⟩

theorem clean_spill (small : bytes < streamBytes) (element : MtlStreamElement streamBytes) :
    Clean bytes (spill bytes element) :=
  ⟨spill_ushiftRight (by omega) _, spill_ushiftRight small.le _, rfl⟩

end MtlStreamElement

open MtlStreamElement (Clean clean_zero clean_spill)

/-- A pass of the loop of `insert_padding`. -/
theorem insertPaddingLoop_cons (positive : 0 < bytes) (small : bytes < streamBytes)
    (clean : Clean bytes carry) :
    insertPaddingLoop bytes carry carry (element :: input) =
      if element.last then
        some (element.shiftIn bytes carry ::
          if (element.spill bytes).keep ≠ 0 then [{ element.spill bytes with last := true }] else [],
          input)
      else
        (insertPaddingLoop bytes (element.spill bytes) (element.spill bytes) input).map fun rest =>
          (element.shiftIn bytes carry :: rest.1, rest.2) := by
  have width : streamBytes * 8 = 8 * streamBytes := Nat.mul_comm _ _
  have below : (streamBytes - bytes) * 8 = 8 * streamBytes - bytes * 8 := by omega
  have smallData : bytes * 8 < 8 * streamBytes := by omega
  have data : setRange carry.data (streamBytes * 8 - 1) (bytes * 8)
      (range element.data ((streamBytes - bytes) * 8 - 1) 0) = (element.shiftIn bytes carry).data := by
    rw [width, below]
    exact setRange_high smallData clean.data
  have keep : setRange carry.keep (streamBytes - 1) bytes
      (range element.keep (streamBytes - bytes - 1) 0) = (element.shiftIn bytes carry).keep :=
    setRange_high small clean.keep
  have nextData : setRange carry.data (bytes * 8 - 1) 0
      (range element.data (streamBytes * 8 - 1) ((streamBytes - bytes) * 8)) =
        (element.spill bytes).data := by
    rw [width, below]
    exact setRange_low (by omega) smallData clean.data
  have nextKeep : setRange carry.keep (bytes - 1) 0
      (range element.keep (streamBytes - 1) (streamBytes - bytes)) = (element.spill bytes).keep :=
    setRange_low positive small clean.keep
  rw [insertPaddingLoop]
  simp only [data, keep, nextData, nextKeep, clean.last]
  rfl

/-- A pass of the loop of `remove_padding`. -/
theorem removePaddingLoop_cons (positive : 0 < bytes) (small : bytes < streamBytes) {valid : Bool} :
    removePaddingLoop bytes previous out valid (element :: input) =
      let out := previous.shiftOut bytes element
      let written := if valid || out.last then [out] else []
      if element.last then
        some (written ++
          if !out.last then
            [{ element with data := element.data >>> (bytes * 8), keep := element.keep >>> bytes }]
          else [], input)
      else
        (removePaddingLoop bytes { previous with data := element.data, keep := element.keep } out true
          input).map fun rest => (written ++ rest.1, rest.2) := by
  have width : streamBytes * 8 = 8 * streamBytes := Nat.mul_comm _ _
  have below : (streamBytes - bytes) * 8 = 8 * streamBytes - bytes * 8 := by omega
  have data : setRange
      (setRange out.data ((streamBytes - bytes) * 8 - 1) 0
        (range previous.data (streamBytes * 8 - 1) (bytes * 8)))
      (streamBytes * 8 - 1) ((streamBytes - bytes) * 8) (range element.data (bytes * 8 - 1) 0) =
        (previous.shiftOut bytes element).data := by
    rw [width, below]
    exact setRange_setRange (by omega) (by omega)
  have keep : setRange
      (setRange out.keep (streamBytes - bytes - 1) 0
        (range previous.keep (streamBytes - 1) bytes))
      (streamBytes - 1) (streamBytes - bytes) (range element.keep (bytes - 1) 0) =
        (previous.shiftOut bytes element).keep := setRange_setRange positive small
  have rest : (range element.keep (streamBytes - 1) bytes == 0) = (element.keep >>> bytes == 0) := by
    rw [Bool.eq_iff_iff, beq_iff_eq, beq_iff_eq]
    exact range_high_eq_zero_iff small
  rw [removePaddingLoop]
  simp only [data, keep, rest]
  rfl

/-! ## There and back -/

/-- What comes back: the lanes behind the last kept one of the packet are cleared. -/
def restored (bytes : Nat) (element : MtlStreamElement streamBytes) : MtlStreamElement streamBytes :=
  if element.last = true ∧ (element.spill bytes).keep = 0 then
    { element with data := element.data <<< (bytes * 8) >>> (bytes * 8) }
  else element

/-- What `remove_padding` has read without writing it, when `carry` is what `insert_padding` has read
without writing it. -/
inductive Pending (bytes : Nat) :
    MtlStreamElement streamBytes → MtlStreamElement streamBytes → Bool →
      List (MtlStreamElement streamBytes) → Prop
  | nothing {carry previous : MtlStreamElement streamBytes} : Pending bytes carry previous false []
  | element {x carry previous : MtlStreamElement streamBytes} (clean : Clean bytes carry)
      (notLast : x.last = false) (data : previous.data = (x.shiftIn bytes carry).data)
      (keep : previous.keep = (x.shiftIn bytes carry).keep) :
      Pending bytes (x.spill bytes) previous true [x]

/-- The element that was read is written when the next one comes. -/
theorem Pending.written (small : bytes < streamBytes) {valid : Bool}
    (isPending : Pending bytes carry previous valid pending)
    (data : element'.data = (element.shiftIn bytes carry).data)
    (keep : element'.keep = (element.shiftIn bytes carry).keep)
    (notLast : (previous.shiftOut bytes element').last = false) :
    (if valid || (previous.shiftOut bytes element').last then [previous.shiftOut bytes element']
      else []) = pending := by
  cases isPending with
  | nothing => rw [notLast]; rfl
  | @element x carry _ clean xNotLast xData xKeep =>
    have same : previous.shiftOut bytes element' = x := by
      ext1
      · rw [MtlStreamElement.shiftOut, xData, data]
        exact shiftOut_shiftIn (by omega) clean.data
      · rw [MtlStreamElement.shiftOut, xKeep, keep]
        exact shiftOut_shiftIn small.le clean.keep
      · exact notLast.trans xNotLast.symm
    rw [same]
    rfl

/-- The end of the packet, when the last bytes need no beat of their own. -/
theorem shiftIn_shiftBack (small : bytes < streamBytes) (clean : Clean bytes carry)
    (last : element.last = true) (nothing : (element.spill bytes).keep = 0) :
    (⟨(element.shiftIn bytes carry).data >>> (bytes * 8),
      (element.shiftIn bytes carry).keep >>> bytes, true⟩ : MtlStreamElement streamBytes) =
        restored bytes element := by
  rw [restored, if_pos ⟨last, nothing⟩]
  ext1
  · dsimp only [MtlStreamElement.shiftIn, ShiftRegister.shiftIn]
    rw [BitVec.ushiftRight_or_distrib, clean.data, BitVec.or_zero]
  · exact shiftIn_ushiftRight small.le clean.keep nothing
  · exact last.symm

/-- The end of the packet, when they do. -/
theorem shiftOut_spill_last (small : bytes < streamBytes) (clean : Clean bytes carry)
    (last : element.last = true) (data : previous.data = (element.shiftIn bytes carry).data)
    (keep : previous.keep = (element.shiftIn bytes carry).keep) :
    previous.shiftOut bytes { element.spill bytes with last := true } = element := by
  ext1
  · rw [MtlStreamElement.shiftOut, data]
    exact shiftOut_spill (by omega) clean.data
  · rw [MtlStreamElement.shiftOut, keep]
    exact shiftOut_spill small.le clean.keep
  · rw [last]
    exact beq_iff_eq.mpr (clean_spill small element).keep

/-- The loop of `insert_padding` ends with the packet, and the loop of `remove_padding` gives it back. -/
theorem removePaddingLoop_padded (positive : 0 < bytes) (small : bytes < streamBytes)
    (isPacket : IsPacket packet) (clean : Clean bytes carry) :
    ∃ padded, (∀ later, insertPaddingLoop bytes carry carry (packet ++ later) = some (padded, later)) ∧
      ∀ previous out valid pending later, Pending bytes carry previous valid pending →
        removePaddingLoop bytes previous out valid (padded ++ later) =
          some (pending ++ packet.map (restored bytes), later) := by
  induction isPacket generalizing carry with
  | @cons element packet notLast rest ih =>
    rcases ih (clean_spill small element) with ⟨padded, inserted, removed⟩
    refine ⟨element.shiftIn bytes carry :: padded, ?_, ?_⟩
    · intro later
      rw [List.cons_append, insertPaddingLoop_cons positive small clean, notLast, inserted later]
      rfl
    · intro previous out valid pending later isPending
      have shiftedLast : (element.shiftIn bytes carry).last = false := by
        rw [MtlStreamElement.shiftIn, notLast, Bool.false_and]
      have outLast : (previous.shiftOut bytes (element.shiftIn bytes carry)).last = false := by
        rw [MtlStreamElement.shiftOut, shiftedLast, Bool.false_and]
      have isPending' : Pending bytes (element.spill bytes)
          { previous with data := (element.shiftIn bytes carry).data,
                          keep := (element.shiftIn bytes carry).keep } true [element] :=
        .element clean notLast rfl rfl
      have same : restored bytes element = element := by
        rw [restored, if_neg]
        intro both
        rw [notLast] at both
        cases both.1
      rw [List.cons_append, removePaddingLoop_cons positive small]
      dsimp only
      rw [isPending.written small rfl rfl outLast, shiftedLast, removed _ _ _ _ later isPending',
        List.map_cons, same]
      rfl
  | @final element last keeps =>
    have shiftedLast : (element.shiftIn bytes carry).last = ((element.spill bytes).keep == 0) := by
      rw [MtlStreamElement.shiftIn, last, Bool.true_and]
    by_cases nothing : (element.spill bytes).keep = 0
    · refine ⟨[element.shiftIn bytes carry], ?_, ?_⟩
      · intro later
        rw [List.singleton_append, insertPaddingLoop_cons positive small clean, last, if_pos rfl,
          if_neg (not_not_intro nothing)]
      · intro previous out valid pending later isPending
        have isLast : (element.shiftIn bytes carry).last = true :=
          shiftedLast.trans (beq_iff_eq.mpr nothing)
        have kept : (element.shiftIn bytes carry).keep >>> bytes = element.keep :=
          shiftIn_ushiftRight small.le clean.keep nothing
        -- The packet keeps a byte, so that the last element is not dropped.
        have outLast : (previous.shiftOut bytes (element.shiftIn bytes carry)).last = false := by
          rw [MtlStreamElement.shiftOut, isLast, Bool.true_and, kept]
          exact beq_eq_false_iff_ne.mpr keeps
        rw [List.singleton_append, removePaddingLoop_cons positive small]
        dsimp only
        rw [isPending.written small rfl rfl outLast, isLast, outLast,
          shiftIn_shiftBack small clean last nothing]
        rfl
    · refine ⟨[element.shiftIn bytes carry, { element.spill bytes with last := true }], ?_, ?_⟩
      · intro later
        rw [List.singleton_append, insertPaddingLoop_cons positive small clean, last, if_pos rfl,
          if_pos nothing]
      · intro previous out valid pending later isPending
        have notLast : (element.shiftIn bytes carry).last = false :=
          shiftedLast.trans (beq_eq_false_iff_ne.mpr nothing)
        have outLast : (previous.shiftOut bytes (element.shiftIn bytes carry)).last = false := by
          rw [MtlStreamElement.shiftOut, notLast, Bool.false_and]
        have same : restored bytes element = element := by
          rw [restored, if_neg]
          intro both
          exact nothing both.2
        have back : MtlStreamElement.shiftOut bytes
            ⟨(element.shiftIn bytes carry).data, (element.shiftIn bytes carry).keep, previous.last⟩
            ⟨(element.spill bytes).data, (element.spill bytes).keep, true⟩ = element :=
          shiftOut_spill_last small clean last rfl rfl
        rw [List.cons_append, removePaddingLoop_cons positive small]
        dsimp only
        rw [isPending.written small rfl rfl outLast, notLast, List.singleton_append,
          removePaddingLoop_cons positive small]
        dsimp only
        rw [back, last, List.map_singleton, same]
        rfl

/-- Only bytes that are not kept are lost. -/
theorem sameKept_restored (small : bytes < streamBytes) (element : MtlStreamElement streamBytes) :
    SameKept element (restored bytes element) := by
  rw [restored]
  split_ifs with both
  · refine ⟨rfl, rfl, ?_⟩
    intro i kept
    -- A kept lane is not among those that were shifted out.
    have low : i < streamBytes - bytes := by
      by_contra high
      have clear : element.keep.getLsbD i = false :=
        getLsbD_of_spill_eq_zero both.2 (Nat.not_lt.mp high)
      rw [MtlStreamElement.Kept, clear] at kept
      cases kept
    refine BitVec.eq_of_getLsbD_eq fun j inside => ?_
    rw [MtlStreamElement.lane, MtlStreamElement.lane, BitVec.getLsbD_extractLsb',
      BitVec.getLsbD_extractLsb', BitVec.getLsbD_ushiftRight, BitVec.getLsbD_shiftLeft,
      Nat.add_sub_cancel_left, decide_eq_true (by omega : bytes * 8 + (8 * i + j) < 8 * streamBytes),
      decide_eq_false (by omega : ¬ bytes * 8 + (8 * i + j) < bytes * 8), Bool.not_false,
      Bool.true_and, Bool.true_and]
  · exact ⟨rfl, rfl, fun _ _ => rfl⟩

/-- `remove_padding` undoes `insert_padding`, whatever its uninitialised variables hold. -/
theorem removePadding_insertPadding {bytes : Nat} (positive : 0 < bytes) (small : bytes < streamBytes)
    {packet : List (MtlStreamElement streamBytes)} (isPacket : IsPacket packet) :
    ∃ padded unpadded,
      (∀ later, insertPadding bytes (packet ++ later) = some (padded, later)) ∧
      (∀ previous out later, removePadding bytes previous out (padded ++ later) =
        some (unpadded, later)) ∧
      List.Forall₂ SameKept packet unpadded := by
  rcases removePaddingLoop_padded positive small isPacket clean_zero with
    ⟨padded, inserted, removed⟩
  refine ⟨padded, packet.map (restored bytes), inserted, ?_, ?_⟩
  · intro previous out later
    exact removed previous out false [] later .nothing
  · rw [List.forall₂_map_right_iff, List.forall₂_same]
    exact fun element _ => sameKept_restored small element

/-- Three bytes of two beats; the last one needs a beat of its own. -/
def shortPacket : List (MtlStreamElement 4) := [⟨0x44332211, 0b0001, false⟩, ⟨0x88776655, 0b1100, true⟩]

theorem removePadding_insertPadding_short : ∃ padded unpadded,
    (∀ later, insertPadding 1 (shortPacket ++ later) = some (padded, later)) ∧
      (∀ previous out later, removePadding 1 previous out (padded ++ later) =
        some (unpadded, later)) ∧
      List.Forall₂ SameKept shortPacket unpadded :=
  removePadding_insertPadding (by decide) (by decide) (.cons rfl (.final rfl (by decide)))

end MetalFs.Fpga
