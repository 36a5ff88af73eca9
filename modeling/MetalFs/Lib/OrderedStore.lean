import Mathlib

/-!
# Finite stores with a byte-ordered cursor

An `OrderedStore K V` is a finite map.  Its keys are compared through an
encoding `enc : K → B` into a linear order, which is how an embedded key-value
store compares the byte strings its keys are written as.  `next` is one cursor
step forward from a key and `last` is the entry of the greatest key.

`leBytes` is the little-endian encoding of a number: its lexicographic order is
what a bytewise comparison of the encoded numbers gives.

* `get_of_next`, `get_of_last`: a cursor only returns stored entries;
* `values`, `values_of_get`, `values_put_of_none`: the multiset of what is stored;
* `weight`, `weight_of_get`, `weight_put_of_none`, `weight_put_of_get`:
  the sum of a quantity over the entries of a store, and how an update moves it;
* `map`, `get_map`, `map_put`, `map_del`: a function on the values.
-/

/-- One byte. -/
abbrev Byte := Fin 256

/-- The low byte of `n`. -/
def byte (n : Nat) : Byte := Fin.ofNat 256 n

/-- The `w` low bytes of `n`, least significant byte first. -/
def leBytes : Nat → Nat → List Byte
  | 0, _ => []
  | w + 1, n => byte n :: leBytes w (n / 256)

/-- The number whose little-endian bytes are `bytes`. -/
def ofLeBytes : List Byte → Nat
  | [] => 0
  | byte :: bytes => byte.val + 256 * ofLeBytes bytes

theorem length_leBytes (w n : Nat) : (leBytes w n).length = w := by
  induction w generalizing n with
  | zero => rfl
  | succ w ih => simp only [leBytes, List.length_cons, ih]

theorem ofLeBytes_leBytes (w n : Nat) : ofLeBytes (leBytes w n) = n % 256 ^ w := by
  induction w generalizing n with
  | zero => simp [leBytes, ofLeBytes, Nat.mod_one]
  | succ w ih =>
    simp only [leBytes, byte, ofLeBytes, ih, Fin.val_ofNat]
    rw [pow_succ', Nat.mod_mul]

/-- Numbers that fit into `w` bytes are told apart by these bytes. -/
theorem leBytes_inj {w a b : Nat} (ha : a < 256 ^ w) (hb : b < 256 ^ w)
    (same : leBytes w a = leBytes w b) : a = b := by
  have decoded := congrArg ofLeBytes same
  rwa [ofLeBytes_leBytes, ofLeBytes_leBytes, Nat.mod_eq_of_lt ha,
    Nat.mod_eq_of_lt hb] at decoded

/-- A finite map from keys to values. -/
abbrev OrderedStore (K V : Type) := AList (fun _ : K => V)

namespace OrderedStore

variable {K V B : Type}

section Updates

variable [DecidableEq K]

/-! ## Reading and writing -/

/-- The value stored under `k`. -/
def get (m : OrderedStore K V) (k : K) : Option V := AList.lookup k m

/-- Store `v` under `k`. -/
def put (m : OrderedStore K V) (k : K) (v : V) : OrderedStore K V := AList.insert k v m

/-- Remove the entry of `k`. -/
def del (m : OrderedStore K V) (k : K) : OrderedStore K V := AList.erase k m

@[simp] theorem get_empty (k : K) : get (∅ : OrderedStore K V) k = none := rfl

theorem get_put (m : OrderedStore K V) (k k' : K) (v : V) :
    (m.put k v).get k' = if k' = k then some v else m.get k' := by
  by_cases same : k' = k
  · subst same
    rw [if_pos rfl]
    exact AList.lookup_insert m
  · rw [if_neg same]
    exact AList.lookup_insert_ne same

theorem get_del (m : OrderedStore K V) (k k' : K) :
    (m.del k).get k' = if k' = k then none else m.get k' := by
  by_cases same : k' = k
  · subst same
    rw [if_pos rfl]
    exact AList.lookup_erase k' m
  · rw [if_neg same]
    exact AList.lookup_erase_ne same

@[simp] theorem get_put_self (m : OrderedStore K V) (k : K) (v : V) :
    (m.put k v).get k = some v := by
  rw [get_put, if_pos rfl]

theorem get_put_of_ne {m : OrderedStore K V} {k k' : K} {v : V} (other : k' ≠ k) :
    (m.put k v).get k' = m.get k' := by
  rw [get_put, if_neg other]

theorem get_del_of_ne {m : OrderedStore K V} {k k' : K} (other : k' ≠ k) :
    (m.del k).get k' = m.get k' := by
  rw [get_del, if_neg other]

theorem mem_entries_of_get {m : OrderedStore K V} {k : K} {v : V} :
    m.get k = some v ↔ (⟨k, v⟩ : Sigma fun _ : K => V) ∈ m.entries :=
  AList.mem_lookup_iff

/-- A store has room for one more key. -/
theorem exists_get_eq_none [Infinite K] (m : OrderedStore K V) : ∃ k, m.get k = none := by
  obtain ⟨k, unused⟩ := Infinite.exists_notMem_finset m.keys.toFinset
  refine ⟨k, AList.lookup_eq_none.mpr fun stored => unused ?_⟩
  rw [List.mem_toFinset]
  exact stored

end Updates

/-! ## The cursor -/

section Cursor

variable [LinearOrder B] (enc : K → B)

/-- The entry that follows `k` in the order of the encoded keys. -/
def next (m : OrderedStore K V) (k : K) : Option (K × V) :=
  ((m.entries.filter fun e => enc k < enc e.1).argmin fun e => enc e.1).map fun e => (e.1, e.2)

/-- The entry with the greatest encoded key. -/
def last (m : OrderedStore K V) : Option (K × V) :=
  (m.entries.argmax fun e => enc e.1).map fun e => (e.1, e.2)

variable {enc} {m : OrderedStore K V} {k k' : K} {v : V}

theorem next_mem (step : next enc m k = some (k', v)) :
    (⟨k', v⟩ : Sigma fun _ : K => V) ∈ m.entries ∧ enc k < enc k' := by
  obtain ⟨e, least, rfl, rfl⟩ : ∃ e, (m.entries.filter fun e => enc k < enc e.1).argmin
      (fun e => enc e.1) = some e ∧ e.1 = k' ∧ e.2 = v := by
    simpa [next] using step
  simpa using List.argmin_mem least

variable [DecidableEq K]

theorem get_of_next (step : next enc m k = some (k', v)) : m.get k' = some v :=
  mem_entries_of_get.mpr (next_mem step).1

theorem get_of_last (step : last enc m = some (k, v)) : m.get k = some v := by
  obtain ⟨e, greatest, rfl, rfl⟩ : ∃ e, m.entries.argmax (fun e => enc e.1) = some e ∧
      e.1 = k ∧ e.2 = v := by
    simpa [last] using step
  exact mem_entries_of_get.mpr (List.argmax_mem greatest)

omit [DecidableEq K] in
theorem le_of_last (step : last enc m = some (k, v)) {e : Sigma fun _ : K => V}
    (member : e ∈ m.entries) : enc e.1 ≤ enc k := by
  obtain ⟨greatest, argmax, rfl, rfl⟩ : ∃ e, m.entries.argmax (fun e => enc e.1) = some e ∧
      e.1 = k ∧ e.2 = v := by
    simpa [last] using step
  exact @List.le_of_mem_argmax _ _ _ (fun e : Sigma fun _ : K => V => enc e.1) _ _ _ member argmax

theorem get_eq_none_of_last (step : last enc m = none) (k : K) : m.get k = none := by
  have empty : m.entries = [] := by
    simpa [last] using step
  cases found : m.get k with
  | none => rfl
  | some v =>
    have member := mem_entries_of_get.mp found
    rw [empty] at member
    cases member

end Cursor

/-! ## The values of a store -/

/-- The values of a store, each as often as it is stored. -/
def values (m : OrderedStore K V) : Multiset V := Multiset.ofList (m.entries.map fun e => e.2)

section Values

variable [DecidableEq K] {m : OrderedStore K V} {k : K} {v : V}

/-- One stored value and the others. -/
theorem values_of_get (found : m.get k = some v) : values m = v ::ₘ values (m.del k) := by
  have member := mem_entries_of_get.mp found
  obtain ⟨v', before, after, _, split, erased⟩ :=
    List.exists_of_kerase (List.mem_keys_of_mem member)
  have stored : (⟨k, v'⟩ : Sigma fun _ : K => V) ∈ m.entries := by
    rw [split]
    simp
  have same : some v = some v' := found.symm.trans (mem_entries_of_get.mpr stored)
  cases same
  have rest : (m.del k).entries = before ++ after := erased
  rw [values, values, rest, split, Multiset.cons_coe, Multiset.coe_eq_coe, List.map_append,
    List.map_append, List.map_cons]
  exact List.perm_middle

/-- Storing a value under a new key adds it. -/
theorem values_put_of_none (absent : m.get k = none) : values (m.put k v) = v ::ₘ values m := by
  have fresh : k ∉ m.entries.keys := AList.lookup_eq_none.mp absent
  have entries : (m.put k v).entries = ⟨k, v⟩ :: m.entries :=
    congrArg (_ :: ·) (List.kerase_of_notMem_keys fresh)
  rw [values, entries]
  rfl

/-- Overwriting a value with itself changes nothing. -/
theorem values_put_of_get (found : m.get k = some v) : values (m.put k v) = values m := by
  rw [values_of_get found, values_of_get (get_put_self m k v)]
  have same : (m.put k v).del k = m.del k := by
    apply AList.ext
    change List.kerase k (⟨k, v⟩ :: List.kerase k m.entries) = List.kerase k m.entries
    exact List.kerase_cons_eq rfl
  rw [same]

theorem mem_values {v : V} : v ∈ values m ↔ ∃ k, m.get k = some v := by
  rw [values, Multiset.mem_coe, List.mem_map]
  constructor
  · rintro ⟨e, member, rfl⟩
    exact ⟨e.1, mem_entries_of_get.mpr member⟩
  · rintro ⟨k, found⟩
    exact ⟨⟨k, v⟩, mem_entries_of_get.mp found, rfl⟩

end Values

/-! ## Sums over a store -/

/-- The sum of `w` over the values of a store. -/
def weight (w : V → Nat) (m : OrderedStore K V) : Nat :=
  (m.entries.map fun e => w e.2).sum

variable {w : V → Nat} {m : OrderedStore K V} {k : K} {v : V}

@[simp] theorem weight_empty : weight w (∅ : OrderedStore K V) = 0 := rfl

variable [DecidableEq K]

/-- The share of one stored value in the sum. -/
theorem weight_of_get (found : m.get k = some v) :
    weight w m = w v + weight w (m.del k) := by
  have member := mem_entries_of_get.mp found
  obtain ⟨v', before, after, _, split, erased⟩ :=
    List.exists_of_kerase (List.mem_keys_of_mem member)
  have stored : (⟨k, v'⟩ : Sigma fun _ : K => V) ∈ m.entries := by
    rw [split]
    simp
  have same : some v = some v' := found.symm.trans (mem_entries_of_get.mpr stored)
  cases same
  have rest : (m.del k).entries = before ++ after := erased
  simp only [weight, rest, split, List.map_append, List.map_cons, List.sum_append, List.sum_cons]
  omega

theorem weight_eq_zero (zero : ∀ k v, m.get k = some v → w v = 0) : weight w m = 0 := by
  refine List.sum_eq_zero ?_
  intro n member
  obtain ⟨e, inStore, rfl⟩ := List.mem_map.mp member
  exact zero e.1 e.2 (mem_entries_of_get.mpr inStore)

/-- Storing a value under a new key adds its share. -/
theorem weight_put_of_none (absent : m.get k = none) :
    weight w (m.put k v) = w v + weight w m := by
  have fresh : k ∉ m.entries.keys := AList.lookup_eq_none.mp absent
  have entries : (m.put k v).entries = ⟨k, v⟩ :: m.entries :=
    congrArg (_ :: ·) (List.kerase_of_notMem_keys fresh)
  simp only [weight, entries, List.map_cons, List.sum_cons]

/-- Overwriting a value exchanges its share. -/
theorem weight_put_of_get {u : V} (found : m.get k = some u) :
    w u + weight w (m.put k v) = w v + weight w m := by
  have share := weight_of_get (w := w) found
  have inserted : weight w (m.put k v) = w v + weight w (m.del k) := rfl
  omega

/-! ## A function on the values -/

section Map

variable {K V W : Type}

/-- The entry with `f` applied to its value. -/
def mapEntry (f : V → W) (e : Sigma fun _ : K => V) : Sigma fun _ : K => W := ⟨e.1, f e.2⟩

theorem keys_mapEntry (f : V → W) (l : List (Sigma fun _ : K => V)) :
    (l.map (mapEntry f)).keys = l.keys := List.map_map

/-- The store with `f` applied to its values. -/
def map (f : V → W) (m : OrderedStore K V) : OrderedStore K W :=
  ⟨m.entries.map (mapEntry f), by
    rw [List.NodupKeys, keys_mapEntry]
    exact m.nodupKeys⟩

variable [DecidableEq K] (f : V → W) (m : OrderedStore K V) (k : K)

theorem get_map : (m.map f).get k = (m.get k).map f := by
  cases found : m.get k with
  | none =>
    refine AList.lookup_eq_none.mpr ?_
    rw [AList.mem_keys, AList.keys, map, keys_mapEntry]
    exact AList.lookup_eq_none.mp found
  | some v =>
    exact mem_entries_of_get.mpr (List.mem_map.mpr ⟨_, mem_entries_of_get.mp found, rfl⟩)

theorem kerase_mapEntry (l : List (Sigma fun _ : K => V)) :
    List.kerase k (l.map (mapEntry f)) = (List.kerase k l).map (mapEntry f) := by
  induction l with
  | nil => rfl
  | cons e l ih =>
    by_cases same : k = e.1
    · rw [List.kerase_cons_eq same]
      exact List.kerase_cons_eq same
    · rw [List.kerase_cons_ne same, List.map_cons, List.map_cons, ← ih]
      exact List.kerase_cons_ne same

theorem map_del : (m.del k).map f = (m.map f).del k :=
  AList.ext (kerase_mapEntry f k m.entries).symm

theorem map_put (v : V) : (m.put k v).map f = (m.map f).put k (f v) :=
  AList.ext (congrArg (List.cons (⟨k, f v⟩ : Sigma fun _ : K => W))
    (kerase_mapEntry f k m.entries).symm)

end Map

end OrderedStore
