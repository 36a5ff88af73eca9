import Mathlib

/-!
# Records one behind the other

`Encodes Enc l data` says that `data` is made of encodings of the records of `l`, one behind the
other and without gaps.  `Enc` is a relation: a record may be encoded in several ways, for instance
with padding.

* `Encodes.append`, `Encodes.concat`: records that are added at the end;
* `Encodes.length_le`, `Encodes.length_eq`: how much room the records take.
-/

namespace Records

variable {ρ α : Type} {Enc : ρ → List α → Prop} {r : ρ} {l l' : List ρ} {bytes data data' : List α}

/-- The records of a list are encoded one behind the other. -/
inductive Encodes (Enc : ρ → List α → Prop) : List ρ → List α → Prop where
  | nil : Encodes Enc [] []
  | cons {r : ρ} {l : List ρ} {bytes rest : List α} (first : Enc r bytes) (later : Encodes Enc l rest) :
      Encodes Enc (r :: l) (bytes ++ rest)

theorem Encodes.append (first : Encodes Enc l data) (second : Encodes Enc l' data') :
    Encodes Enc (l ++ l') (data ++ data') := by
  induction first with
  | nil => exact second
  | cons head later ih =>
    rw [List.cons_append, List.append_assoc]
    exact .cons head ih

theorem Encodes.concat (encodes : Encodes Enc l data) (last : Enc r bytes) :
    Encodes Enc (l ++ [r]) (data ++ bytes) := by
  have alone : Encodes Enc [r] (bytes ++ []) := .cons last .nil
  rw [List.append_nil] at alone
  exact encodes.append alone

/-- Records of at least `k` units take that much room each. -/
theorem Encodes.length_le {k : Nat} (least : ∀ {r bytes}, Enc r bytes → k ≤ bytes.length)
    (encodes : Encodes Enc l data) : k * l.length ≤ data.length := by
  induction encodes with
  | nil => exact Nat.le_refl _
  | cons head later ih =>
    have first := least head
    rw [List.length_cons, List.length_append, Nat.mul_succ]
    omega

theorem Encodes.length_eq (size : ρ → Nat) (exact : ∀ {r bytes}, Enc r bytes → bytes.length = size r)
    (encodes : Encodes Enc l data) : data.length = (l.map size).sum := by
  induction encodes with
  | nil => rfl
  | cons head later ih => rw [List.length_append, exact head, ih, List.map_cons, List.sum_cons]

end Records
