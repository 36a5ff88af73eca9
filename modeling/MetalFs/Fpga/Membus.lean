import MetalFs.Lib.ByteWords
import MetalFs.Filesystem.Heap

/-!
# The memory bus

The FPGA reads the memory of the host in lines of 64 bytes (`snap_membus_t`), as numbers
of 512 bits whose low bits are the first bytes.  `mtl_endian.h` takes words out of a line.
-/

namespace MetalFs.Fpga

/-- `x(hi, lo)` of an `ap_uint`. -/
def bits (x hi lo : Nat) : Nat := x / 2 ^ lo % 2 ^ (hi + 1 - lo)

/-- `ADDR_RIGHT_SHIFT`. -/
def addrRightShift : Nat := 6

/-- `MFB_ADDRESS`. -/
def mfbAddress (address : Nat) : Nat := address / 2 ^ addrRightShift

/-- `MFB_INCREMENT`. -/
def mfbIncrement : Nat := 2 ^ addrRightShift

/-- `sizeof(snap_membus_t)`. -/
def sizeofMembus : Nat := 64

/-- `mtl_get32be`. -/
def mtlGet32be (lowestByte busline : Nat) : Nat :=
  let pattern := bits busline (lowestByte * 8 + 31) (lowestByte * 8)
  bits pattern 7 0 * 2 ^ 24 + bits pattern 15 8 * 2 ^ 16 + bits pattern 23 16 * 2 ^ 8 +
    bits pattern 31 24

/-- `mtl_get64be`. -/
def mtlGet64be (lowestByte busline : Nat) : Nat :=
  let pattern := bits busline (lowestByte * 8 + 63) (lowestByte * 8)
  bits pattern 7 0 * 2 ^ 56 + bits pattern 15 8 * 2 ^ 48 + bits pattern 23 16 * 2 ^ 40 +
    bits pattern 31 24 * 2 ^ 32 + bits pattern 39 32 * 2 ^ 24 + bits pattern 47 40 * 2 ^ 16 +
    bits pattern 55 48 * 2 ^ 8 + bits pattern 63 56

/-- Line `k` of a block of memory. -/
def busLine (memory : List Byte) (k : Nat) : Nat :=
  ofLeBytes ((memory.drop (sizeofMembus * k)).take sizeofMembus)

/-- The lines of `mem_in` from `address` on are those of `memory`. -/
def HoldsAt (memIn : Nat → Nat) (address : Nat) (memory : List Byte) : Prop :=
  ∀ k, sizeofMembus * (k + 1) ≤ memory.length → memIn (mfbAddress address + k) = busLine memory k

theorem holdsAt_zero (memory : List Byte) : HoldsAt (busLine memory) 0 memory := by
  intro k _
  rw [mfbAddress, Nat.zero_div, Nat.zero_add]

/-! ## Words of a line -/

theorem bits_ofLeBytes (bytes : List Byte) (k w : Nat) :
    bits (ofLeBytes bytes) (k * 8 + (w * 8 + 7)) (k * 8) =
      ofLeBytes ((bytes.drop k).take (w + 1)) := by
  have width : k * 8 + (w * 8 + 7) + 1 - k * 8 = 8 * (w + 1) := by omega
  have power : ∀ n, 2 ^ (8 * n) = 256 ^ n := fun n => pow_mul 2 8 n
  rw [ofLeBytes_take, ofLeBytes_drop, bits, width, Nat.mul_comm k 8, power, power]

theorem mtlGet32be_ofLeBytes {bytes : List Byte} {k : Nat} (inside : k + 4 ≤ bytes.length) :
    mtlGet32be k (ofLeBytes bytes) = ofBeBytes ((bytes.drop k).take 4) := by
  have length : ((bytes.drop k).take 4).length = 4 := by
    rw [List.length_take, List.length_drop]
    omega
  unfold mtlGet32be
  rw [bits_ofLeBytes bytes k 3]
  generalize (bytes.drop k).take 4 = word at length
  obtain ⟨a, b, c, d, rfl⟩ : ∃ a b c d, word = [a, b, c, d] := by
    match word, length with
    | [a, b, c, d], _ => exact ⟨a, b, c, d, rfl⟩
  have byte := fun i => bits_ofLeBytes [a, b, c, d] i 0
  simp only [byte 0, byte 1, byte 2, byte 3]
  simp only [ofBeBytes, List.reverse_cons, List.reverse_nil, List.nil_append, List.cons_append,
    List.drop_succ_cons, List.drop_zero, List.take_succ_cons, List.take_zero, ofLeBytes]
  ring

theorem mtlGet64be_ofLeBytes {bytes : List Byte} {k : Nat} (inside : k + 8 ≤ bytes.length) :
    mtlGet64be k (ofLeBytes bytes) = ofBeBytes ((bytes.drop k).take 8) := by
  have length : ((bytes.drop k).take 8).length = 8 := by
    rw [List.length_take, List.length_drop]
    omega
  unfold mtlGet64be
  rw [bits_ofLeBytes bytes k 7]
  generalize (bytes.drop k).take 8 = word at length
  obtain ⟨a, b, c, d, e, f, g, h, rfl⟩ : ∃ a b c d e f g h, word = [a, b, c, d, e, f, g, h] := by
    match word, length with
    | [a, b, c, d, e, f, g, h], _ => exact ⟨a, b, c, d, e, f, g, h, rfl⟩
  have byte := fun i => bits_ofLeBytes [a, b, c, d, e, f, g, h] i 0
  simp only [byte 0, byte 1, byte 2, byte 3, byte 4, byte 5, byte 6, byte 7]
  simp only [ofBeBytes, List.reverse_cons, List.reverse_nil, List.nil_append, List.cons_append,
    List.drop_succ_cons, List.drop_zero, List.take_succ_cons, List.take_zero, ofLeBytes]
  ring

end MetalFs.Fpga
