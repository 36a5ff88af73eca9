import Mathlib

/-!
# Graphs with named edges

`child d n` is the node that `d` names `n`.  A graph is `Rooted` if every live node is named exactly
once and can be reached from the root: it is a tree, and a node is known by its path.

* `Named.walk_inj`: two paths do not lead to the same node;
* `Named.walk_off`: a changed edge is only noticed by the paths that go through it;
* `Rooted.attach`, `Rooted.detach`, `Rooted.move`: adding a leaf, removing a leaf and moving a
  subtree keep the tree;
* `walk_attach`, `walk_detach`, `walk_move`: where the paths lead afterwards.
-/

namespace NameGraph

variable {ι ν : Type}

/-- The node at the end of a path. -/
def walk (child : ι → ν → Option ι) : ι → List ν → Option ι
  | d, [] => some d
  | d, n :: p => (child d n).bind fun i => walk child i p

/-- No edge leads to the root, and no two edges lead to the same node. -/
structure Named (root : ι) (child : ι → ν → Option ι) : Prop where
  notRoot : ∀ {d n i}, child d n = some i → i ≠ root
  unique : ∀ {d n i d' n'}, child d n = some i → child d' n' = some i → d = d' ∧ n = n'

/-- The live nodes are those that can be reached from the root. -/
structure Rooted (live : ι → Prop) (root : ι) (child : ι → ν → Option ι) : Prop
    extends Named root child where
  rootLive : live root
  closed : ∀ {d n i}, child d n = some i → live d ∧ live i
  reached : ∀ {i}, live i → ∃ p, walk child root p = some i

variable {live : ι → Prop} {root d e i j : ι} {n m : ν} {p q r x : List ν}
  {child child' : ι → ν → Option ι}

/-! ## Paths -/

theorem walk_append (child : ι → ν → Option ι) (d : ι) (p q : List ν) :
    walk child d (p ++ q) = (walk child d p).bind fun i => walk child i q := by
  induction p generalizing d with
  | nil => rfl
  | cons n p ih =>
    rw [List.cons_append, walk, walk, Option.bind_assoc]
    exact congrArg _ (funext ih)

theorem walk_of_edge (edge : child d n = some i) (r : List ν) :
    walk child d (n :: r) = walk child i r := by
  rw [walk, edge, Option.bind_some]

theorem walk_concat (child : ι → ν → Option ι) (d : ι) (p : List ν) (n : ν) :
    walk child d (p ++ [n]) = (walk child d p).bind fun i => child i n := by
  rw [walk_append]
  refine congrArg _ (funext fun i => ?_)
  cases edge : child i n with
  | none => rw [walk, edge, Option.bind_none]
  | some j =>
    rw [walk_of_edge edge]
    rfl

theorem walk_through (here : walk child root p = some d) (edge : child d n = some i) (r : List ν) :
    walk child root (p ++ [n] ++ r) = walk child i r := by
  rw [List.append_assoc, walk_append, here, Option.bind_some, List.singleton_append,
    walk_of_edge edge]

theorem walk_blocked (here : walk child root p = some d) (free : child d n = none) (r : List ν) :
    walk child root (p ++ [n] ++ r) = none := by
  rw [List.append_assoc, walk_append, here, Option.bind_some, List.singleton_append, walk, free,
    Option.bind_none]

/-- Nothing is found below a leaf. -/
theorem walk_leaf (leaf : ∀ m, child i m = none) (nonempty : r ≠ []) : walk child i r = none := by
  cases r with
  | nil => exact absurd rfl nonempty
  | cons m r => rw [walk, leaf m, Option.bind_none]

/-- Paths from a node only depend on the nodes that are reached from it. -/
theorem walk_congr (same : ∀ r d, walk child i r = some d → child' d = child d) (r : List ν) :
    walk child' i r = walk child i r := by
  induction r generalizing i with
  | nil => rfl
  | cons n r ih =>
    rw [walk, walk, same [] i rfl]
    cases edge : child i n with
    | none => rfl
    | some j =>
      rw [Option.bind_some, Option.bind_some]
      refine ih ?_
      intro r d reached
      exact same (n :: r) d (by rw [walk_of_edge edge, reached])

/-- The nodes that are reached edge by edge are those at the end of a path. -/
theorem reached_iff_walk : Relation.ReflTransGen (fun d i => ∃ n, child d n = some i) root i ↔
    ∃ p, walk child root p = some i := by
  refine ⟨?_, ?_⟩
  · intro reached
    induction reached with
    | refl => exact ⟨[], rfl⟩
    | tail _ edge ih =>
      rcases ih with ⟨p, walked⟩
      rcases edge with ⟨n, edge⟩
      exact ⟨p ++ [n], by rw [walk_concat, walked, Option.bind_some, edge]⟩
  · intro path
    rcases path with ⟨p, walked⟩
    induction p using List.reverseRecOn generalizing i with
    | nil =>
      cases Option.some_inj.mp walked
      exact .refl
    | append_singleton p n ih =>
      rw [walk_concat] at walked
      rcases Option.bind_eq_some_iff.mp walked with ⟨d, here, edge⟩
      exact (ih here).tail ⟨n, edge⟩

theorem Named.walk_inj (named : Named root child) (first : walk child root p = some i)
    (second : walk child root q = some i) : p = q := by
  induction p using List.reverseRecOn generalizing q i with
  | nil =>
    cases Option.some_inj.mp first
    induction q using List.reverseRecOn with
    | nil => rfl
    | append_singleton q n ih =>
      rw [walk_concat] at second
      rcases Option.bind_eq_some_iff.mp second with ⟨d, -, edge⟩
      exact absurd rfl (named.notRoot edge)
  | append_singleton p n ih =>
    rw [walk_concat] at first
    rcases Option.bind_eq_some_iff.mp first with ⟨d, walked, edge⟩
    induction q using List.reverseRecOn with
    | nil =>
      cases Option.some_inj.mp second
      exact absurd rfl (named.notRoot edge)
    | append_singleton q m _ =>
      rw [walk_concat] at second
      rcases Option.bind_eq_some_iff.mp second with ⟨d', walked', edge'⟩
      rcases named.unique edge edge' with ⟨rfl, rfl⟩
      rw [ih walked walked']

/-- Two graphs that differ in one edge agree on the paths that do not go through it. -/
theorem Named.walk_off (named : Named root child) (here : walk child root p = some d)
    (agree : ∀ d' m, ¬ (d' = d ∧ m = n) → child' d' m = child d' m) (off : ¬ p ++ [n] <+: q) :
    walk child' root q = walk child root q := by
  induction q using List.reverseRecOn with
  | nil => rfl
  | append_singleton q m ih =>
    have before : ¬ p ++ [n] <+: q := by
      intro through
      exact off (through.trans (List.prefix_append q [m]))
    rw [walk_concat, walk_concat, ih before]
    cases walked : walk child root q with
    | none => rfl
    | some d' =>
      rw [Option.bind_some, Option.bind_some]
      refine agree d' m ?_
      intro same
      rcases same with ⟨rfl, rfl⟩
      rw [named.walk_inj walked here] at off
      exact off List.prefix_rfl

theorem Rooted.walk_live (rooted : Rooted live root child) (walked : walk child root p = some i) :
    live i := by
  induction p using List.reverseRecOn with
  | nil =>
    cases Option.some_inj.mp walked
    exact rooted.rootLive
  | append_singleton p n _ =>
    rw [walk_concat] at walked
    rcases Option.bind_eq_some_iff.mp walked with ⟨d, -, edge⟩
    exact (rooted.closed edge).2

theorem Rooted.no_child (rooted : Rooted live root child) (gone : ¬ live i) (m : ν) :
    child i m = none := by
  cases edge : child i m with
  | none => rfl
  | some j => exact absurd (rooted.closed edge).1 gone

section Updates

variable [DecidableEq ι] [DecidableEq ν]

/-- `d` names `i` as `n`. -/
def attach (child : ι → ν → Option ι) (d : ι) (n : ν) (i : ι) : ι → ν → Option ι :=
  fun d' n' => if d' = d ∧ n' = n then some i else child d' n'

/-- `d` names nothing as `n`. -/
def detach (child : ι → ν → Option ι) (d : ι) (n : ν) : ι → ν → Option ι :=
  fun d' n' => if d' = d ∧ n' = n then none else child d' n'

@[simp] theorem attach_self : attach child d n i d n = some i := if_pos ⟨rfl, rfl⟩

theorem attach_other {d' : ι} {n' : ν} (other : ¬ (d' = d ∧ n' = n)) :
    attach child d n i d' n' = child d' n' := if_neg other

@[simp] theorem detach_self : detach child d n d n = none := if_pos ⟨rfl, rfl⟩

theorem detach_other {d' : ι} {n' : ν} (other : ¬ (d' = d ∧ n' = n)) :
    detach child d n d' n' = child d' n' := if_neg other

theorem attach_eq_some {d' : ι} {n' : ν} (edge : attach child d n i d' n' = some j) :
    (d' = d ∧ n' = n) ∧ j = i ∨ ¬ (d' = d ∧ n' = n) ∧ child d' n' = some j := by
  by_cases here : d' = d ∧ n' = n
  · rw [here.1, here.2, attach_self] at edge
    exact Or.inl ⟨here, (Option.some_inj.mp edge).symm⟩
  · rw [attach_other here] at edge
    exact Or.inr ⟨here, edge⟩

theorem detach_eq_some {d' : ι} {n' : ν} (edge : detach child d n d' n' = some j) :
    ¬ (d' = d ∧ n' = n) ∧ child d' n' = some j := by
  by_cases here : d' = d ∧ n' = n
  · rw [here.1, here.2, detach_self] at edge
    cases edge
  · rw [detach_other here] at edge
    exact ⟨here, edge⟩

theorem Named.attach (named : Named root child) (notRoot : i ≠ root)
    (unnamed : ∀ d' n', child d' n' ≠ some i) : Named root (attach child d n i) := by
  refine ⟨?_, ?_⟩
  · intro d' n' j edge
    rcases attach_eq_some edge with ⟨-, rfl⟩ | ⟨-, old⟩
    · exact notRoot
    · exact named.notRoot old
  · intro d₁ n₁ j d₂ n₂ first second
    rcases attach_eq_some first with ⟨here₁, rfl⟩ | ⟨-, old₁⟩
    · rcases attach_eq_some second with ⟨here₂, -⟩ | ⟨-, old₂⟩
      · exact ⟨here₁.1.trans here₂.1.symm, here₁.2.trans here₂.2.symm⟩
      · exact absurd old₂ (unnamed _ _)
    · rcases attach_eq_some second with ⟨-, rfl⟩ | ⟨-, old₂⟩
      · exact absurd old₁ (unnamed _ _)
      · exact named.unique old₁ old₂

theorem Named.detach (named : Named root child) : Named root (detach child d n) := by
  refine ⟨?_, ?_⟩
  · intro d' n' j edge
    exact named.notRoot (detach_eq_some edge).2
  · intro d₁ n₁ j d₂ n₂ first second
    exact named.unique (detach_eq_some first).2 (detach_eq_some second).2

/-! ## Adding a leaf -/

/-- Where the paths lead once a new leaf is there. -/
theorem walk_attach (rooted : Rooted live root child) (here : walk child root p = some d)
    (free : child d n = none) (fresh : ¬ live i) (q : List ν) :
    walk (attach child d n i) root q = if q = p ++ [n] then some i else walk child root q := by
  have agree : ∀ d' m, ¬ (d' = d ∧ m = n) → attach child d n i d' m = child d' m :=
    fun d' m other => attach_other other
  have here' : walk (attach child d n i) root p = some d := by
    rw [rooted.walk_off here agree, here]
    intro through
    have longer := through.length_le
    rw [List.length_append, List.length_singleton] at longer
    omega
  by_cases through : p ++ [n] <+: q
  · rcases through with ⟨r, rfl⟩
    rw [walk_through here' attach_self, walk_blocked here free]
    cases r with
    | nil =>
      rw [if_pos (List.append_nil _)]
      rfl
    | cons m r =>
      have leaf : ∀ m, attach child d n i i m = none := by
        intro m
        have apart : ¬ (i = d ∧ m = n) := by
          intro same
          rw [same.1] at fresh
          exact fresh (rooted.walk_live here)
        rw [attach_other apart, rooted.no_child fresh]
      rw [walk_leaf leaf (List.cons_ne_nil _ _), if_neg]
      intro short
      have length := congrArg List.length short
      rw [List.length_append, List.length_cons] at length
      omega
  · rw [rooted.walk_off here agree through, if_neg]
    intro same
    exact through (same ▸ List.prefix_rfl)

theorem Rooted.attach (rooted : Rooted live root child) (parent : live d) (free : child d n = none)
    (fresh : ¬ live i) :
    Rooted (fun j => live j ∨ j = i) root (attach child d n i) := by
  have unnamed : ∀ d' n', child d' n' ≠ some i := by
    intro d' n' edge
    exact fresh (rooted.closed edge).2
  have notRoot : i ≠ root := by
    intro same
    rw [same] at fresh
    exact fresh rooted.rootLive
  refine ⟨rooted.toNamed.attach notRoot unnamed, Or.inl rooted.rootLive, ?_, ?_⟩
  · intro d' n' j edge
    rcases attach_eq_some edge with ⟨⟨rfl, rfl⟩, rfl⟩ | ⟨-, old⟩
    · exact ⟨Or.inl parent, Or.inr rfl⟩
    · exact ⟨Or.inl (rooted.closed old).1, Or.inl (rooted.closed old).2⟩
  · intro j there
    rcases rooted.reached parent with ⟨p, here⟩
    have paths := walk_attach rooted here free fresh
    rcases there with old | rfl
    · rcases rooted.reached old with ⟨q, walked⟩
      refine ⟨q, ?_⟩
      rw [paths, walked, if_neg]
      intro through
      rw [through, ← List.append_nil (p ++ [n]), walk_blocked here free] at walked
      cases walked
    · exact ⟨p ++ [n], by rw [paths, if_pos rfl]⟩

/-! ## Removing a leaf -/

theorem walk_detach_off (named : Named root child) (here : walk child root p = some d)
    (off : ¬ p ++ [n] <+: q) : walk (detach child d n) root q = walk child root q :=
  named.walk_off here (fun _ _ other => detach_other other) off

theorem walk_detach_through (named : Named root child) (here : walk child root p = some d)
    (r : List ν) : walk (detach child d n) root (p ++ [n] ++ r) = none := by
  have here' : walk (detach child d n) root p = some d := by
    rw [walk_detach_off named here, here]
    intro through
    have longer := through.length_le
    rw [List.length_append, List.length_singleton] at longer
    omega
  exact walk_blocked here' detach_self r

theorem walk_detach (named : Named root child) (here : walk child root p = some d)
    (edge : child d n = some i) (leaf : ∀ m, child i m = none) (q : List ν) :
    walk (detach child d n) root q = if q = p ++ [n] then none else walk child root q := by
  by_cases through : p ++ [n] <+: q
  · rcases through with ⟨r, rfl⟩
    rw [walk_detach_through named here]
    by_cases whole : p ++ [n] ++ r = p ++ [n]
    · rw [if_pos whole]
    · have below : r ≠ [] := by
        intro empty
        rw [empty, List.append_nil] at whole
        exact whole rfl
      rw [if_neg whole, walk_through here edge, walk_leaf leaf below]
  · rw [walk_detach_off named here through, if_neg]
    intro same
    exact through (same ▸ List.prefix_rfl)

theorem Rooted.detach (rooted : Rooted live root child) (edge : child d n = some i)
    (leaf : ∀ m, child i m = none) :
    Rooted (fun j => live j ∧ j ≠ i) root (detach child d n) := by
  refine ⟨rooted.toNamed.detach, ⟨rooted.rootLive, (rooted.notRoot edge).symm⟩, ?_, ?_⟩
  · intro d' n' j edge'
    rcases detach_eq_some edge' with ⟨other, old⟩
    refine ⟨⟨(rooted.closed old).1, ?_⟩, (rooted.closed old).2, ?_⟩
    · intro same
      rw [same, leaf] at old
      cases old
    · intro same
      rw [same] at old
      exact other (rooted.unique old edge)
  · intro j there
    rcases rooted.reached (rooted.closed edge).1 with ⟨p, here⟩
    rcases rooted.reached there.1 with ⟨q, walked⟩
    refine ⟨q, ?_⟩
    rw [walk_detach rooted.toNamed here edge leaf, walked, if_neg]
    intro through
    rw [through, ← List.append_nil (p ++ [n]), walk_through here edge] at walked
    exact there.2 (Option.some_inj.mp walked).symm

/-! ## Moving a subtree -/

section Move

variable (rooted : Rooted live root child) (edge : child d n = some i)
  (free : NameGraph.detach child d n e m = none) (outside : ∀ r, walk child i r ≠ some e)

include rooted edge outside

/-- The nodes of the subtree keep their names. -/
theorem walk_moved (here : walk child root p = some d) (r : List ν) :
    walk (NameGraph.attach (NameGraph.detach child d n) e m i) i r = walk child i r := by
  refine walk_congr ?_ r
  intro r y walked
  funext n'
  have notTarget : y ≠ e := by
    intro same
    rw [same] at walked
    exact outside r walked
  have notSource : y ≠ d := by
    intro same
    rw [same, ← walk_through here edge] at walked
    have loop := congrArg List.length (rooted.walk_inj walked here)
    rw [List.length_append, List.length_append, List.length_singleton] at loop
    omega
  rw [attach_other (fun same => notTarget same.1), detach_other (fun same => notSource same.1)]

/-- Where the paths lead once the subtree of `i` is at another place. -/
theorem walk_move (here : walk child root p = some d) (there : walk child root q = some e)
    (x : List ν) :
    walk (NameGraph.attach (NameGraph.detach child d n) e m i) root x =
      if q ++ [m] <+: x then walk child root (p ++ [n] ++ x.drop (q ++ [m]).length)
      else if p ++ [n] <+: x then none else walk child root x := by
  have there' : walk (NameGraph.detach child d n) root q = some e := by
    rw [walk_detach_off rooted.toNamed here, there]
    intro through
    rcases through with ⟨r, rfl⟩
    rw [walk_through here edge] at there
    exact outside r there
  have agree : ∀ d' m', ¬ (d' = e ∧ m' = m) →
      NameGraph.attach (NameGraph.detach child d n) e m i d' m' = NameGraph.detach child d n d' m' :=
    fun d' m' other => attach_other other
  have off := fun y => @Named.walk_off ι ν root e m q y _ _ rooted.toNamed.detach there' agree
  by_cases target : q ++ [m] <+: x
  · rcases target with ⟨r, rfl⟩
    have there'' : walk (NameGraph.attach (NameGraph.detach child d n) e m i) root q = some e := by
      rw [off q, there']
      intro through
      have longer := through.length_le
      rw [List.length_append, List.length_singleton] at longer
      omega
    rw [if_pos (List.prefix_append _ _), List.drop_left, walk_through there'' attach_self,
      walk_moved rooted edge outside here, walk_through here edge]
  · rw [if_neg target, off x target]
    by_cases source : p ++ [n] <+: x
    · rcases source with ⟨r, rfl⟩
      rw [if_pos (List.prefix_append _ _), walk_detach_through rooted.toNamed here]
    · rw [if_neg source, walk_detach_off rooted.toNamed here source]

include free in
theorem Rooted.move (target : live e) :
    Rooted live root (NameGraph.attach (NameGraph.detach child d n) e m i) := by
  have unnamed : ∀ d' n', NameGraph.detach child d n d' n' ≠ some i := by
    intro d' n' other
    rcases detach_eq_some other with ⟨apart, old⟩
    exact apart (rooted.unique old edge)
  refine ⟨rooted.toNamed.detach.attach (rooted.notRoot edge) unnamed, rooted.rootLive, ?_, ?_⟩
  · intro d' n' j edge'
    rcases attach_eq_some edge' with ⟨⟨rfl, rfl⟩, rfl⟩ | ⟨-, old⟩
    · exact ⟨target, (rooted.closed edge).2⟩
    · exact rooted.closed (detach_eq_some old).2
  · intro j alive
    rcases rooted.reached (rooted.closed edge).1 with ⟨p, here⟩
    rcases rooted.reached target with ⟨q, there⟩
    rcases rooted.reached alive with ⟨x, walked⟩
    have paths := walk_move rooted edge outside here there (m := m)
    by_cases source : p ++ [n] <+: x
    · rcases source with ⟨r, rfl⟩
      refine ⟨q ++ [m] ++ r, ?_⟩
      rw [paths, if_pos (List.prefix_append _ _), List.drop_left, walked]
    · refine ⟨x, ?_⟩
      rw [paths, if_neg source, if_neg, walked]
      intro through
      rcases through with ⟨r, rfl⟩
      by_cases same : e = d ∧ m = n
      · rcases same with ⟨rfl, rfl⟩
        rw [rooted.walk_inj there here] at source
        exact source (List.prefix_append _ _)
      · rw [detach_other same] at free
        rw [walk_blocked there free] at walked
        cases walked

end Move

end Updates

end NameGraph
