import Mathlib

/-!
# Stations on a stream

Stations are connected by a table that gives for each station the one it takes its input from, if
any.  A stream leaves the root, passes stations, and comes back to the root.

`connect` makes the entries of the table for a list of stations one behind the other, so that a
later entry replaces an earlier one.  `delivers_connect_iff` says when this works: if no station is
in the list twice and the root is not.
-/

namespace Routing

variable {P : Type}

/-! ## What arrives -/

section Table

variable (route : P → Option P) (root : P)

/-- A stream from the root leaves `p` after it has passed the stations, the last of them `p`. -/
inductive Feeds : P → List P → Prop
  | source : Feeds root []
  | station {p q : P} {passed : List P} (apart : p ≠ root) (connected : route p = some q)
      (before : Feeds q passed) : Feeds p (passed ++ [p])

/-- A stream from the root comes back to the root after it has passed the stations. -/
def Delivers (passed : List P) : Prop := ∃ q, route root = some q ∧ Feeds route root q passed

end Table

section Unique

variable {route : P → Option P} {root p : P} {passed passed' : List P}

theorem Feeds.root_notMem (feeds : Feeds route root p passed) : root ∉ passed := by
  induction feeds with
  | source => exact List.not_mem_nil
  | station apart connected before ih =>
    rw [List.mem_append, List.mem_singleton]
    rintro (member | rfl)
    · exact ih member
    · exact apart rfl

theorem Feeds.unique (feeds : Feeds route root p passed) (feeds' : Feeds route root p passed') :
    passed = passed' := by
  induction feeds generalizing passed' with
  | source =>
    cases feeds' with
    | source => rfl
    | station apart connected before => exact absurd rfl apart
  | station apart connected before ih =>
    cases feeds' with
    | source => exact absurd rfl apart
    | station apart' connected' before' =>
      rw [connected] at connected'
      cases connected'
      rw [ih before']

theorem Delivers.unique (delivers : Delivers route root passed)
    (delivers' : Delivers route root passed') : passed = passed' := by
  rcases delivers with ⟨q, connected, feeds⟩
  rcases delivers' with ⟨q', connected', feeds'⟩
  rw [connected] at connected'
  cases connected'
  exact feeds.unique feeds'

/-- Stations whose inputs are stations of the same kind get nothing from a root that is not. -/
theorem Feeds.avoids {closed : P → Prop} (inputs : ∀ p q, closed p → route p = some q → closed q)
    (outside : ¬ closed root) (feeds : Feeds route root p passed) : ¬ closed p := by
  induction feeds with
  | source => exact outside
  | station apart connected before ih =>
    intro here
    exact ih (inputs _ _ here connected)

end Unique

/-! ## Connecting a list of stations -/

/-- A list in which an element occurs twice, cut at the first of the two. -/
theorem exists_append_of_duplicate {p : P} {l : List P} (duplicate : l.Duplicate p) :
    ∃ front rest, l = front ++ p :: rest ∧ p ∈ rest := by
  induction duplicate with
  | @cons_mem rest member => exact ⟨[], rest, rfl, member⟩
  | @cons_duplicate s l later ih =>
    obtain ⟨front, rest, rfl, member⟩ := ih
    exact ⟨s :: front, rest, rfl, member⟩

section Connect

variable [DecidableEq P] {root prev p : P} {stations : List P} {route table : P → Option P}

/-- Connects the first station with `prev`, each other one with the station before it, and the root
with the last one. -/
def connect (root prev : P) : List P → (P → Option P) → P → Option P
  | [], table => Function.update table root (some prev)
  | p :: stations, table => connect root p stations (Function.update table p (some prev))

theorem connect_of_notMem (notMem : p ∉ root :: stations) :
    connect root prev stations table p = table p := by
  induction stations generalizing prev table with
  | nil => exact Function.update_of_ne (List.ne_of_not_mem_cons notMem) _ _
  | cons s stations ih =>
    rw [List.mem_cons, List.mem_cons, not_or, not_or] at notMem
    rw [connect, ih (by rw [List.mem_cons, not_or]; exact ⟨notMem.1, notMem.2.2⟩)]
    exact Function.update_of_ne notMem.2.1 _ _

/-- What is in the table before a station does not matter to the stations behind it. -/
theorem exists_connect_append (root prev p : P) (stations front : List P) (table : P → Option P) :
    ∃ table', connect root prev (front ++ p :: stations) table = connect root p stations table' := by
  induction front generalizing prev table with
  | nil => exact ⟨Function.update table p (some prev), rfl⟩
  | cons s front ih => exact ih s (Function.update table s (some prev))

/-- The input of a station in the list is in the list, or the one before the list. -/
theorem connect_mem (prev : P) (table : P → Option P) (member : p ∈ root :: stations) :
    ∃ q ∈ prev :: stations, connect root prev stations table p = some q := by
  induction stations generalizing prev table with
  | nil =>
    rw [List.mem_singleton] at member
    rw [member]
    exact ⟨prev, List.mem_singleton_self prev, Function.update_self _ _ _⟩
  | cons s stations ih =>
    by_cases later : p ∈ root :: stations
    · obtain ⟨q, inside, value⟩ := ih s (Function.update table s (some prev)) later
      exact ⟨q, List.mem_cons_of_mem _ inside, value⟩
    · rw [List.mem_cons, not_or] at later
      have here : p = s := by
        rcases List.mem_cons.mp member with root | other
        · exact absurd root later.1
        · exact (List.mem_cons.mp other).resolve_right later.2
      refine ⟨prev, List.mem_cons_self, ?_⟩
      rw [connect, connect_of_notMem (by rw [List.mem_cons, not_or]; exact later), here]
      exact Function.update_self _ _ _

/-- No station is the input of two others. -/
def NoFork (table : P → Option P) : Prop :=
  ∀ p p' q, table p = some q → table p' = some q → p = p'

theorem noFork_update (noFork : NoFork table) (unused : ∀ s, table s ≠ some prev) :
    NoFork (Function.update table p (some prev)) := by
  have other : ∀ s, s ≠ p → Function.update table p (some prev) s = table s :=
    fun s different => Function.update_of_ne different _ _
  have here : Function.update table p (some prev) p = some prev := Function.update_self _ _ _
  intro s s' q first second
  by_cases isFirst : s = p
  · by_cases isSecond : s' = p
    · rw [isFirst, isSecond]
    · rw [isFirst, here] at first
      rw [other s' isSecond, ← first] at second
      exact absurd second (unused s')
  · rw [other s isFirst] at first
    by_cases isSecond : s' = p
    · rw [isSecond, here] at second
      rw [← second] at first
      exact absurd first (unused s)
    · rw [other s' isSecond] at second
      exact noFork s s' q first second

theorem noFork_connect (distinct : (prev :: stations).Nodup) (noFork : NoFork table)
    (unused : ∀ s, ∀ q ∈ prev :: stations, table s ≠ some q) :
    NoFork (connect root prev stations table) := by
  induction stations generalizing prev table with
  | nil => exact noFork_update noFork fun s => unused s prev List.mem_cons_self
  | cons p stations ih =>
    have rest := List.nodup_cons.mp distinct
    refine ih rest.2 (noFork_update noFork fun s => unused s prev List.mem_cons_self) ?_
    intro s q member value
    by_cases here : s = p
    · rw [here, Function.update_self] at value
      cases value
      exact rest.1 member
    · rw [Function.update_of_ne here] at value
      exact unused s q (List.mem_cons_of_mem _ member) value

/-- Behind a station that is fed, the list is delivered. -/
theorem delivers_of_feeds (table : P → Option P) (distinct : (root :: stations).Nodup)
    (entries : ∀ s ∈ root :: stations, route s = connect root prev stations table s)
    {passed : List P} (feeds : Feeds route root prev passed) :
    Delivers route root (passed ++ stations) := by
  induction stations generalizing prev table passed with
  | nil =>
    rw [List.append_nil]
    refine ⟨prev, ?_, feeds⟩
    rw [entries root List.mem_cons_self]
    exact Function.update_self _ _ _
  | cons p stations ih =>
    rw [List.nodup_cons, List.mem_cons, not_or, List.nodup_cons] at distinct
    have here : route p = some prev := by
      rw [entries p (List.mem_cons_of_mem _ List.mem_cons_self), connect, connect_of_notMem]
      · exact Function.update_self _ _ _
      · rw [List.mem_cons, not_or]
        exact ⟨Ne.symm distinct.1.1, distinct.2.1⟩
    rw [List.append_cons]
    refine ih (Function.update table p (some prev)) ?_ (fun s member => ?_)
      (.station (Ne.symm distinct.1.1) here feeds)
    · exact List.nodup_cons.mpr ⟨distinct.1.2, distinct.2.2⟩
    · refine entries s ?_
      rcases List.mem_cons.mp member with rfl | member
      · exact List.mem_cons_self
      · exact List.mem_cons_of_mem _ (List.mem_cons_of_mem _ member)

/-- A list of distinct stations connects none with itself. -/
theorem ne_of_connect (distinct : (prev :: stations).Nodup)
    (unlike : ∀ s q, table s = some q → s = root ∨ s ≠ q) {s q : P}
    (entry : connect root prev stations table s = some q) : s = root ∨ s ≠ q := by
  induction stations generalizing prev table with
  | nil =>
    by_cases here : s = root
    · exact Or.inl here
    · rw [connect, Function.update_of_ne here] at entry
      exact unlike s q entry
  | cons p stations ih =>
    have rest := List.nodup_cons.mp distinct
    refine ih rest.2 ?_ entry
    intro s q value
    by_cases here : s = p
    · rw [here, Function.update_self] at value
      cases value
      rw [here]
      exact Or.inr fun same => rest.1 (same ▸ List.mem_cons_self)
    · rw [Function.update_of_ne here] at value
      exact unlike s q value

end Connect

/-! ## A switch -/

/-- A switch makes at most the connections of the table, and all those that are possible and whose
input no other entry asks for. -/
structure Realises (possible : P → P → Prop) (route table : P → Option P) : Prop where
  sound : ∀ p q, route p = some q → table p = some q
  connects : ∀ p q, table p = some q → possible p q → (∀ p', table p' = some q → p' = p) →
    route p = some q

/-- A switch whose table was made for a list of stations delivers the stream through them in order,
just if no station occurs twice and the root is none of them. -/
theorem delivers_connect_iff [DecidableEq P] {root : P} {stations : List P}
    {route : P → Option P} {possible : P → P → Prop}
    (others : ∀ p q, p = root ∨ p ≠ q → possible p q)
    (realises : Realises possible route (connect root root stations fun _ => none)) :
    Delivers route root stations ↔ (root :: stations).Nodup := by
  have empty : ∀ (p q : P), (none : Option P) ≠ some q := fun _ _ => (Option.some_ne_none _).symm
  constructor
  · rintro ⟨q, connected, feeds⟩
    rw [List.nodup_cons]
    refine ⟨feeds.root_notMem, ?_⟩
    by_contra repeated
    obtain ⟨p, duplicate⟩ := List.exists_duplicate_iff_not_nodup.mpr repeated
    obtain ⟨front, rest, rfl, again⟩ := exists_append_of_duplicate duplicate
    obtain ⟨table', suffix⟩ := exists_connect_append root root p rest front fun _ => none
    -- From the first `p` on, all inputs are behind it.
    have inputs : ∀ s q, s ∈ root :: rest → route s = some q → q ∈ rest := by
      intro s q member value
      obtain ⟨q', inside, entry⟩ := connect_mem p table' member
      have found := realises.sound s q value
      rw [suffix, entry] at found
      cases found
      rcases List.mem_cons.mp inside with rfl | inside
      · exact again
      · exact inside
    have outside : root ∉ rest := by
      intro member
      exact feeds.root_notMem (List.mem_append_right _ (List.mem_cons_of_mem _ member))
    exact feeds.avoids (fun s q member => inputs s q (List.mem_cons_of_mem _ member)) outside
      (inputs root q List.mem_cons_self connected)
  · intro distinct
    have noFork : NoFork (connect root root stations fun _ => none) :=
      noFork_connect distinct (fun p _ q value => absurd value (empty p q)) fun p q _ => empty p q
    refine delivers_of_feeds (fun _ => none) distinct (fun s member => ?_) .source
    obtain ⟨q, -, entry⟩ := connect_mem root (fun _ => none) member
    rw [entry]
    refine realises.connects s q entry (others s q ?_) fun p' value => noFork p' s q value entry
    exact ne_of_connect distinct (fun p q value => absurd value (empty p q)) entry

/-- A switch leaves out what is not in the table. -/
theorem Realises.disabled {possible : P → P → Prop} {route table : P → Option P} {p : P}
    (realises : Realises possible route table) (disabled : table p = none) : route p = none := by
  cases connected : route p with
  | none => rfl
  | some q => rw [realises.sound p q connected] at disabled; cases disabled

end Routing
