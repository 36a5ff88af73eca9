import MetalFs.Driver.AgentPool

/-!
# Finding a pipeline among the registered agents

`containsValidPipeline` walks along the links from the first input agent that it finds.
This module says what it returns for an arbitrary set of registered agents with distinct
numbers (`detectsPipelines_iff`).  The walk does not remember where it has been, so that
it does not end if it comes into a cycle; but the links have no cycles of one or two
agents, because `registerAgent` does not compare an agent with itself and sets only one
of the links of a pair (`cycle_iff`).  And a second input agent is not tried.
-/

namespace MetalFs.Driver

open Relation Trail

/-! ## The agents by their requests -/

/-- One of the agents writes to another. -/
def Link (requests : List RegistrationRequest) (a b : RegistrationRequest) : Prop :=
  a ∈ requests ∧ b ∈ requests ∧ a.WritesTo b

/-- The output of `a` comes to an agent whose output goes nowhere else. -/
def LeadsOut (requests : List RegistrationRequest) (a : RegistrationRequest) : Prop :=
  ∃ z ∈ requests, z.outputPid = 0 ∧ ReflTransGen (Link requests) a z

/-- The output of `b` comes back to it, but not at once or through a single other agent. -/
def OnLongCycle (requests : List RegistrationRequest) (b : RegistrationRequest) : Prop :=
  TransGen (Link requests) b b ∧ ∀ c, Link requests b c → ¬ Link requests c b

/-- The output of `a` gets into a cycle of three or more agents. -/
def RunsInCircles (requests : List RegistrationRequest) (a : RegistrationRequest) : Prop :=
  ∃ b, ReflTransGen (Link requests) a b ∧ OnLongCycle requests b

section Requests

variable {requests : List RegistrationRequest} {a b c z : RegistrationRequest}

theorem eq_of_pid (distinct : (requests.map RegistrationRequest.pid).Nodup) (isA : a ∈ requests)
    (isB : b ∈ requests) (same : a.pid = b.pid) : a = b :=
  List.inj_on_of_nodup_map distinct isA isB same

theorem Link.unique (distinct : (requests.map RegistrationRequest.pid).Nodup)
    (toB : Link requests a b) (toC : Link requests a c) : b = c :=
  eq_of_pid distinct toB.2.1 toC.2.1 (toB.2.2.symm.trans toC.2.2)

/-- On the way to an agent that is in no cycle of two there is no such cycle. -/
theorem not_link_back (distinct : (requests.map RegistrationRequest.pid).Nodup)
    (there : Link requests a b) (path : ReflTransGen (Link requests) b z)
    (offShort : ∀ c, Link requests z c → ¬ Link requests c z) : ¬ Link requests b a := by
  intro back
  rcases eq_or_eq_of_reflTransGen (R := Link requests) (Link.unique distinct) there back path
    with rfl | rfl
  · exact offShort b there back
  · exact offShort a back there

end Requests

namespace AgentPool

/-! ## The walk along the links -/

/-- Where the walk of `containsValidPipeline` goes next. -/
def nextAgent (agents : AgentRef → OperatorAgent) (agent : AgentRef) : Option AgentRef :=
  if (agents agent).isOutputAgent then none else (agents agent).outputAgent

theorem walkPipeline_eq (agents : AgentRef → OperatorAgent) (fuel : Nat)
    (pipelineAgents : List AgentRef) (agent : AgentRef) :
    walkPipeline agents fuel pipelineAgents (some agent) =
      (trail (nextAgent agents) fuel agent).map (pipelineAgents ++ ·) := by
  induction fuel generalizing pipelineAgents agent with
  | zero => rfl
  | succ fuel ih =>
    rw [walkPipeline, trail, nextAgent]
    split_ifs
    · rfl
    · rcases (agents agent).outputAgent with _ | next
      · rw [walkPipeline]
        rfl
      · simp only [ih, Option.map_map]
        congr 1
        funext later
        simp

section Walk

variable {requests : List RegistrationRequest} {pool : AgentPool} {order : List AgentRef}
  {a b start : AgentRef} {z : RegistrationRequest}

theorem step_iff (holds : Holds requests pool) (nonzero : ∀ r ∈ requests, r.pid ≠ 0)
    (isRegistered : a ∈ pool.registeredAgents) :
    Step (nextAgent pool.agents) a b ↔
      b ∈ pool.registeredAgents ∧ (pool.request a).WritesTo (pool.request b) ∧
        ((pool.request b).WritesTo (pool.request a) → a < b) := by
  rw [Step, nextAgent, ← holds.links a isRegistered]
  split_ifs with isOutput
  · -- The number 0 is no agent's, so that the last agent is not linked.
    refine ⟨nofun, fun linked => ?_⟩
    rcases (holds.links a isRegistered b).mp linked with ⟨isRegistered', writes, -⟩
    have zero : (pool.request b).pid = 0 :=
      writes.symm.trans (OperatorAgent.isOutputAgent_iff.mp isOutput)
    exact absurd zero (nonzero _ (holds.request_mem isRegistered'))
  · exact Iff.rfl

theorem step_of_link (holds : Holds requests pool) (nonzero : ∀ r ∈ requests, r.pid ≠ 0)
    (isA : a ∈ pool.registeredAgents) (isB : b ∈ pool.registeredAgents)
    (there : Link requests (pool.request a) (pool.request b))
    (notBack : ¬ Link requests (pool.request b) (pool.request a)) :
    Step (nextAgent pool.agents) a b := by
  refine (step_iff holds nonzero isA).mpr ⟨isB, there.2.2, fun back => ?_⟩
  exact absurd ⟨holds.request_mem isB, holds.request_mem isA, back⟩ notBack

theorem link_of_step (holds : Holds requests pool) (nonzero : ∀ r ∈ requests, r.pid ≠ 0)
    (isA : a ∈ pool.registeredAgents) (step : Step (nextAgent pool.agents) a b) :
    b ∈ pool.registeredAgents ∧ Link requests (pool.request a) (pool.request b) := by
  rcases (step_iff holds nonzero isA).mp step with ⟨isB, writes, -⟩
  exact ⟨isB, holds.request_mem isA, holds.request_mem isB, writes⟩

theorem path_of_steps (holds : Holds requests pool) (nonzero : ∀ r ∈ requests, r.pid ≠ 0)
    (isA : a ∈ pool.registeredAgents) (steps : ReflTransGen (Step (nextAgent pool.agents)) a b) :
    b ∈ pool.registeredAgents ∧ ReflTransGen (Link requests) (pool.request a) (pool.request b) := by
  induction steps with
  | refl => exact ⟨isA, .refl⟩
  | tail _ step ih =>
    rcases link_of_step holds nonzero ih.1 step with ⟨isRegistered, link⟩
    exact ⟨isRegistered, ih.2.tail link⟩

/-- The walk comes to every agent that is in no cycle of two. -/
theorem steps_of_path (holds : Holds requests pool)
    (distinct : (requests.map RegistrationRequest.pid).Nodup)
    (nonzero : ∀ r ∈ requests, r.pid ≠ 0) (isA : a ∈ pool.registeredAgents)
    (path : ReflTransGen (Link requests) (pool.request a) z)
    (offShort : ∀ c, Link requests z c → ¬ Link requests c z) :
    ∃ b ∈ pool.registeredAgents, pool.request b = z ∧
      ReflTransGen (Step (nextAgent pool.agents)) a b := by
  generalize isFirst : pool.request a = x at path
  induction path using ReflTransGen.head_induction_on generalizing a with
  | refl => exact ⟨a, isA, isFirst, .refl⟩
  | head link path ih =>
    rcases holds.exists_agent link.2.1 with ⟨next, isNext, rfl⟩
    subst isFirst
    rcases ih isNext rfl with ⟨b, isB, named, steps⟩
    have step := step_of_link holds nonzero isA isNext link
      (not_link_back distinct link path offShort)
    exact ⟨b, isB, named, .head step steps⟩

/-- The cycles of the walk are those of three or more agents. -/
theorem cycle_iff (holds : Holds requests pool)
    (distinct : (requests.map RegistrationRequest.pid).Nodup)
    (nonzero : ∀ r ∈ requests, r.pid ≠ 0) (isB : b ∈ pool.registeredAgents) :
    TransGen (Step (nextAgent pool.agents)) b b ↔ OnLongCycle requests (pool.request b) := by
  constructor
  · intro turn
    rcases TransGen.head'_iff.mp turn with ⟨c, step, rest⟩
    rcases link_of_step holds nonzero isB step with ⟨isC, link⟩
    rcases path_of_steps holds nonzero isC rest with ⟨-, path⟩
    refine ⟨TransGen.head' link path, ?_⟩
    intro d toD back
    -- `d` is the agent of `c`, and of two agents that write to each other only one is linked.
    obtain rfl := Link.unique distinct link toD
    have older := ((step_iff holds nonzero isB).mp step).2.2 back.2.2
    rcases ReflTransGen.cases_head rest with rfl | ⟨e, step', -⟩
    · exact lt_irrefl _ older
    · rcases link_of_step holds nonzero isC step' with ⟨isE, link'⟩
      have same : e = b := holds.eq_of_pid distinct isE isB
        (congrArg RegistrationRequest.pid (Link.unique distinct link' back))
      subst same
      exact lt_asymm older (((step_iff holds nonzero isC).mp step').2.2 link.2.2)
  · rintro ⟨turn, offShort⟩
    rcases TransGen.head'_iff.mp turn with ⟨c, link, path⟩
    rcases holds.exists_agent link.2.1 with ⟨next, isNext, rfl⟩
    rcases steps_of_path holds distinct nonzero isNext path offShort with ⟨b', isB', named, steps⟩
    have same : b' = b := holds.eq_of_pid distinct isB' isB (congrArg RegistrationRequest.pid named)
    subst same
    exact TransGen.head' (step_of_link holds nonzero isB isNext link (offShort _ link)) steps

end Walk

/-! ## What is found -/

section Found

variable {requests : List RegistrationRequest} {pool : AgentPool} {order l : List AgentRef}
  {a b start : AgentRef} {fuel : Nat}

theorem containsValidPipeline_of_no_input (uncached : pool.containsValidPipelineCached = false)
    (missing : ∀ agent ∈ order, ¬ (pool.agents agent).isInputAgent) :
    pool.containsValidPipeline order fuel = some (false, pool) := by
  have notFound : order.find? (fun agent => (pool.agents agent).isInputAgent) = none :=
    List.find?_eq_none.mpr missing
  rw [containsValidPipeline, uncached, notFound]
  rfl

/-- The agents that are erased when a pipeline has been found. -/
theorem foldl_erase (l : List AgentRef) (set : Finset AgentRef) :
    l.foldl Finset.erase set = set \ l.toFinset := by
  induction l generalizing set with
  | nil => rw [List.foldl_nil, List.toFinset_nil, Finset.sdiff_empty]
  | cons agent l ih =>
    rw [List.foldl_cons, ih, List.toFinset_cons]
    ext x
    simp only [Finset.mem_sdiff, Finset.mem_erase, Finset.mem_insert]
    tauto

theorem containsValidPipeline_of_trail (uncached : pool.containsValidPipelineCached = false)
    (first : order.find? (fun agent => (pool.agents agent).isInputAgent) = some start)
    (walked : trail (nextAgent pool.agents) fuel start = some l) (isLast : l.getLast? = some b) :
    pool.containsValidPipeline order fuel = some (
      if (pool.agents b).isOutputAgent then
        (true, { pool with
          containsValidPipelineCached := true
          pipelineAgents := l
          registeredAgents := pool.registeredAgents \ l.toFinset })
      else (false, pool)) := by
  rw [containsValidPipeline, uncached, first]
  simp only [walkPipeline_eq, walked, Option.map_some, List.nil_append, isLast, Option.any_some,
    foldl_erase, Bool.false_eq_true, if_false, Option.bind_eq_bind, Option.bind_some]
  split_ifs <;> rfl

theorem containsValidPipeline_eq_none (uncached : pool.containsValidPipelineCached = false)
    (first : order.find? (fun agent => (pool.agents agent).isInputAgent) = some start)
    (lost : trail (nextAgent pool.agents) fuel start = none) :
    pool.containsValidPipeline order fuel = none := by
  rw [containsValidPipeline, uncached, first]
  simp only [walkPipeline_eq, lost, Option.map_none, Bool.false_eq_true, if_false]
  rfl

/-- What the search returns: the pool as it was, or with the agents of the walk taken out. -/
theorem containsValidPipeline_cases (uncached : pool.containsValidPipelineCached = false)
    {found : Bool} {pool' : AgentPool}
    (returned : pool.containsValidPipeline order fuel = some (found, pool')) :
    (found = false ∧ pool' = pool) ∨
      ∃ start l, start ∈ order ∧ trail (nextAgent pool.agents) fuel start = some l ∧
        found = true ∧ pool' = { pool with
          containsValidPipelineCached := true
          pipelineAgents := l
          registeredAgents := pool.registeredAgents \ l.toFinset } := by
  rcases first : order.find? fun agent => (pool.agents agent).isInputAgent with _ | start
  · rw [containsValidPipeline_of_no_input uncached (List.find?_eq_none.mp first)] at returned
    cases returned
    exact .inl ⟨rfl, rfl⟩
  · rcases walked : trail (nextAgent pool.agents) fuel start with _ | l
    · rw [containsValidPipeline_eq_none uncached first walked] at returned
      cases returned
    · rcases last_of_trail walked with ⟨b, isLast, -, -⟩
      rw [containsValidPipeline_of_trail uncached first walked isLast] at returned
      split_ifs at returned
      · cases returned
        exact .inr ⟨start, l, List.mem_of_find?_eq_some first, walked, rfl, rfl⟩
      · cases returned
        exact .inl ⟨rfl, rfl⟩

/-- An output agent has no further link. -/
theorem not_link_of_output {z c : RegistrationRequest} (nonzero : ∀ r ∈ requests, r.pid ≠ 0)
    (isOutput : z.outputPid = 0) : ¬ Link requests z c := by
  intro link
  exact nonzero c link.2.1 (link.2.2.symm.trans isOutput)

/-- The walk from an agent that leads out ends in an output agent. -/
theorem exists_trail_of_leadsOut (holds : Holds requests pool)
    (distinct : (requests.map RegistrationRequest.pid).Nodup)
    (nonzero : ∀ r ∈ requests, r.pid ≠ 0) (isA : a ∈ pool.registeredAgents)
    (leadsOut : LeadsOut requests (pool.request a)) :
    ∃ fuel l b, trail (nextAgent pool.agents) fuel a = some l ∧ l.getLast? = some b ∧
      (pool.agents b).isOutputAgent := by
  rcases leadsOut with ⟨z, isZ, isOutput, path⟩
  have final : ∀ c, Link requests z c → ¬ Link requests c z := fun c link =>
    absurd link (not_link_of_output nonzero isOutput)
  rcases steps_of_path holds distinct nonzero isA path final with ⟨b, isB, rfl, steps⟩
  have isOutput' : (pool.agents b).isOutputAgent := OperatorAgent.isOutputAgent_iff.mpr isOutput
  have stops : nextAgent pool.agents b = none := if_pos isOutput'
  rcases exists_trail_of_stop steps stops with ⟨fuel, l, walked, isLast⟩
  exact ⟨fuel, l, b, walked, isLast, isOutput'⟩

/-- The walk from an agent that neither leads out nor runs in circles ends in an agent that
waits for another one to register. -/
theorem exists_trail_of_unfinished (holds : Holds requests pool)
    (distinct : (requests.map RegistrationRequest.pid).Nodup)
    (nonzero : ∀ r ∈ requests, r.pid ≠ 0) (isA : a ∈ pool.registeredAgents)
    (unfinished : ¬ LeadsOut requests (pool.request a))
    (straight : ¬ RunsInCircles requests (pool.request a)) :
    ∃ fuel l b, trail (nextAgent pool.agents) fuel a = some l ∧ l.getLast? = some b ∧
      ¬ (pool.agents b).isOutputAgent := by
  have inside : ∀ x, ReflTransGen (Step (nextAgent pool.agents)) a x →
      x ∈ pool.registeredAgents := fun x steps => (path_of_steps holds nonzero isA steps).1
  have acyclic : ∀ x, ReflTransGen (Step (nextAgent pool.agents)) a x →
      ¬ TransGen (Step (nextAgent pool.agents)) x x := by
    intro x steps turn
    rcases path_of_steps holds nonzero isA steps with ⟨isX, path⟩
    exact straight ⟨_, path, (cycle_iff holds distinct nonzero isX).mp turn⟩
  rcases exists_trail inside acyclic with ⟨l, walked⟩
  rcases last_of_trail walked with ⟨b, isLast, steps, -⟩
  refine ⟨_, l, b, walked, isLast, fun isOutput => unfinished ?_⟩
  rcases path_of_steps holds nonzero isA steps with ⟨isB, path⟩
  exact ⟨_, holds.request_mem isB, OperatorAgent.isOutputAgent_iff.mp isOutput, path⟩

theorem Holds.isInputAgent_iff (enumerates : Enumerates order pool.registeredAgents)
    (holds : Holds requests pool) :
    (∃ agent ∈ order, (pool.agents agent).isInputAgent) ↔ ∃ r ∈ requests, r.inputPid = 0 := by
  constructor
  · rintro ⟨agent, inOrder, isInput⟩
    rw [← List.mem_toFinset, enumerates.2] at inOrder
    exact ⟨_, holds.request_mem inOrder, OperatorAgent.isInputAgent_iff.mp isInput⟩
  · rintro ⟨r, isRequest, isInput⟩
    rcases holds.exists_agent isRequest with ⟨agent, isRegistered, rfl⟩
    rw [← enumerates.2, List.mem_toFinset] at isRegistered
    exact ⟨agent, isRegistered, OperatorAgent.isInputAgent_iff.mpr isInput⟩

/-- The agent that the walk starts from. -/
theorem Holds.input_of_find (enumerates : Enumerates order pool.registeredAgents)
    (holds : Holds requests pool)
    (first : order.find? (fun agent => (pool.agents agent).isInputAgent) = some start) :
    start ∈ pool.registeredAgents ∧ pool.request start ∈ requests ∧
      (pool.request start).inputPid = 0 := by
  have inOrder := List.mem_of_find?_eq_some first
  rw [← List.mem_toFinset, enumerates.2] at inOrder
  have isInput := List.find?_some first
  exact ⟨inOrder, holds.request_mem inOrder, OperatorAgent.isInputAgent_iff.mp isInput⟩

end Found

/-! ## Any set of agents -/

section Registered

variable {requests : List RegistrationRequest} {pool : AgentPool} {order l : List AgentRef}
  {a b start : AgentRef} {fuel : Nat}

theorem Registered.holds (registered : Registered requests pool)
    (distinct : (requests.map RegistrationRequest.pid).Nodup) : Holds requests pool := by
  induction registered with
  | empty empty => exact .of_empty empty
  | register request _ enumerates ih =>
    have distinct' := distinct
    rw [List.map_append] at distinct'
    exact (ih distinct'.of_append_left).registerAgent distinct enumerates

/-- Every registration asks for a new search. -/
theorem Registered.uncached (registered : Registered requests pool) (nonempty : requests ≠ []) :
    pool.containsValidPipelineCached = false := by
  cases registered with
  | empty => exact absurd rfl nonempty
  | register => rfl

theorem exists_enumerates {set : Finset AgentRef} (isIn : start ∈ set) :
    ∃ rest, Enumerates (start :: rest) set := by
  refine ⟨(set.erase start).toList, ?_, ?_⟩
  · rw [List.nodup_cons, Finset.mem_toList]
    exact ⟨Finset.notMem_erase start set, Finset.nodup_toList _⟩
  · rw [List.toFinset_cons, Finset.toList_toFinset, Finset.insert_erase isIn]

theorem exists_registered (requests : List RegistrationRequest) :
    ∃ pool, Registered requests pool := by
  induction requests using List.reverseRecOn with
  | nil => exact ⟨.new false, .empty rfl⟩
  | append_singleton requests request ih =>
    rcases ih with ⟨pool, registered⟩
    exact ⟨_, .register request registered ⟨Finset.nodup_toList _, Finset.toList_toFinset _⟩⟩

end Registered

/-- For the agents of `requests`, registered in this order, `containsValidPipeline` returns, and
`true` just if one of the input agents leads out.  The pool's search starts from
whichever input agent the set gives it first. -/
def DetectsPipelines (requests : List RegistrationRequest) : Prop :=
  ∀ pool order, Registered requests pool → Enumerates order pool.registeredAgents →
    ∃ fuel found pool', pool.containsValidPipeline order fuel = some (found, pool') ∧
      (found = true ↔ ∃ a ∈ requests, a.inputPid = 0 ∧ LeadsOut requests a)

section Detects

variable {requests : List RegistrationRequest} {a : RegistrationRequest}

theorem detectsPipelines_of_leadsOut (distinct : (requests.map RegistrationRequest.pid).Nodup)
    (nonzero : ∀ r ∈ requests, r.pid ≠ 0) (nonempty : requests ≠ [])
    (all : ∀ a ∈ requests, a.inputPid = 0 → LeadsOut requests a) : DetectsPipelines requests := by
  intro pool order registered enumerates
  have holds := registered.holds distinct
  have uncached := registered.uncached nonempty
  rcases first : order.find? fun agent => (pool.agents agent).isInputAgent with _ | start
  · have missing := List.find?_eq_none.mp first
    refine ⟨0, false, pool, containsValidPipeline_of_no_input uncached missing, nofun, ?_⟩
    rintro ⟨a, isA, isInput, -⟩
    rcases (holds.isInputAgent_iff enumerates).mpr ⟨a, isA, isInput⟩ with ⟨agent, inOrder, isInput'⟩
    exact absurd isInput' (missing agent inOrder)
  · rcases holds.input_of_find enumerates first with ⟨isStart, isRequest, isInput⟩
    have leadsOut := all _ isRequest isInput
    rcases exists_trail_of_leadsOut holds distinct nonzero isStart leadsOut with
      ⟨fuel, l, b, walked, isLast, isOutput⟩
    have found := containsValidPipeline_of_trail uncached first walked isLast
    rw [if_pos isOutput] at found
    exact ⟨fuel, true, _, found, fun _ => ⟨_, isRequest, isInput, leadsOut⟩, fun _ => rfl⟩

/-- The search returns without a pipeline if no input agent leads out or runs in circles. -/
theorem containsValidPipeline_of_unfinished {pool : AgentPool} {order : List AgentRef}
    (holds : Holds requests pool) (uncached : pool.containsValidPipelineCached = false)
    (enumerates : Enumerates order pool.registeredAgents)
    (distinct : (requests.map RegistrationRequest.pid).Nodup)
    (nonzero : ∀ r ∈ requests, r.pid ≠ 0)
    (unfinished : ∀ a ∈ requests, a.inputPid = 0 →
      ¬ LeadsOut requests a ∧ ¬ RunsInCircles requests a) :
    ∃ fuel, pool.containsValidPipeline order fuel = some (false, pool) := by
  rcases first : order.find? fun agent => (pool.agents agent).isInputAgent with _ | start
  · exact ⟨0, containsValidPipeline_of_no_input uncached (List.find?_eq_none.mp first)⟩
  · rcases holds.input_of_find enumerates first with ⟨isStart, isRequest, isInput⟩
    rcases unfinished _ isRequest isInput with ⟨notOut, straight⟩
    rcases exists_trail_of_unfinished holds distinct nonzero isStart notOut straight with
      ⟨fuel, l, b, walked, isLast, isOutput⟩
    have found := containsValidPipeline_of_trail uncached first walked isLast
    rw [if_neg isOutput] at found
    exact ⟨fuel, found⟩

theorem detectsPipelines_of_unfinished (distinct : (requests.map RegistrationRequest.pid).Nodup)
    (nonzero : ∀ r ∈ requests, r.pid ≠ 0) (nonempty : requests ≠ [])
    (unfinished : ∀ a ∈ requests, a.inputPid = 0 →
      ¬ LeadsOut requests a ∧ ¬ RunsInCircles requests a) : DetectsPipelines requests := by
  intro pool order registered enumerates
  rcases containsValidPipeline_of_unfinished (registered.holds distinct) (registered.uncached nonempty)
    enumerates distinct nonzero unfinished with ⟨fuel, returned⟩
  refine ⟨fuel, false, pool, returned, nofun, ?_⟩
  rintro ⟨a, isA, isInput, leadsOut⟩
  exact absurd leadsOut (unfinished a isA isInput).1

/-- Where the claimed result is returned in every case, each input agent decides it. -/
theorem DetectsPipelines.input (detects : DetectsPipelines requests)
    (distinct : (requests.map RegistrationRequest.pid).Nodup)
    (nonzero : ∀ r ∈ requests, r.pid ≠ 0) (isA : a ∈ requests) (isInput : a.inputPid = 0) :
    ¬ RunsInCircles requests a ∧
      ((∃ b ∈ requests, b.inputPid = 0 ∧ LeadsOut requests b) → LeadsOut requests a) := by
  rcases exists_registered requests with ⟨pool, registered⟩
  have holds := registered.holds distinct
  have uncached := registered.uncached (List.ne_nil_of_mem isA)
  rcases holds.exists_agent isA with ⟨start, isStart, rfl⟩
  -- The agent comes first in the set.
  rcases exists_enumerates isStart with ⟨rest, enumerates⟩
  have first : (start :: rest).find? (fun agent => (pool.agents agent).isInputAgent) =
      some start := List.find?_cons_of_pos (OperatorAgent.isInputAgent_iff.mpr isInput)
  rcases detects pool _ registered enumerates with ⟨fuel, found, pool', returned, iff⟩
  constructor
  · rintro ⟨b, path, cycle⟩
    rcases steps_of_path holds distinct nonzero isStart path cycle.2 with ⟨agent, isB, rfl, steps⟩
    have lost : trail (nextAgent pool.agents) fuel start = none :=
      trail_eq_none_of_cycle steps ((cycle_iff holds distinct nonzero isB).mpr cycle)
    rw [containsValidPipeline_eq_none uncached first lost] at returned
    cases returned
  · intro someLeadsOut
    rcases walked : trail (nextAgent pool.agents) fuel start with _ | l
    · rw [containsValidPipeline_eq_none uncached first walked] at returned
      cases returned
    · rcases last_of_trail walked with ⟨b, isLast, steps, -⟩
      rw [containsValidPipeline_of_trail uncached first walked isLast, iff.mpr someLeadsOut]
        at returned
      split_ifs at returned with isOutput
      · rcases path_of_steps holds nonzero isStart steps with ⟨isB, path⟩
        exact ⟨_, holds.request_mem isB, OperatorAgent.isOutputAgent_iff.mp isOutput, path⟩
      · cases returned

theorem not_detectsPipelines_nil : ¬ DetectsPipelines [] := by
  intro detects
  -- Before the first registration the flag has no value yet.
  rcases detects (.new true) [] (.empty rfl) ⟨List.nodup_nil, rfl⟩ with ⟨fuel, found, pool', returned, iff⟩
  cases returned
  rcases iff.mp rfl with ⟨a, isA, -⟩
  exact List.not_mem_nil isA

/-- For agents with distinct non-zero numbers `containsValidPipeline` returns, and the right
result, exactly if there are any, and their input agents all lead out or all neither lead
out nor run in circles. -/
theorem detectsPipelines_iff (distinct : (requests.map RegistrationRequest.pid).Nodup)
    (nonzero : ∀ r ∈ requests, r.pid ≠ 0) :
    DetectsPipelines requests ↔ requests ≠ [] ∧
      ((∀ a ∈ requests, a.inputPid = 0 → LeadsOut requests a) ∨
        ∀ a ∈ requests, a.inputPid = 0 →
          ¬ LeadsOut requests a ∧ ¬ RunsInCircles requests a) := by
  constructor
  · intro detects
    refine ⟨?_, ?_⟩
    · rintro rfl
      exact not_detectsPipelines_nil detects
    · by_cases someLeadsOut : ∃ b ∈ requests, b.inputPid = 0 ∧ LeadsOut requests b
      · refine .inl fun a isA isInput => ?_
        exact (detects.input distinct nonzero isA isInput).2 someLeadsOut
      · refine .inr fun a isA isInput => ⟨fun leadsOut => ?_, ?_⟩
        · exact someLeadsOut ⟨a, isA, isInput, leadsOut⟩
        · exact (detects.input distinct nonzero isA isInput).1
  · rintro ⟨nonempty, all | unfinished⟩
    · exact detectsPipelines_of_leadsOut distinct nonzero nonempty all
    · exact detectsPipelines_of_unfinished distinct nonzero nonempty unfinished

/-- Two agents that make a pipeline. -/
def twoStages : List RegistrationRequest := [⟨11, 0, 12⟩, ⟨12, 11, 0⟩]

theorem detectsPipelines_twoStages : DetectsPipelines twoStages := by
  refine (detectsPipelines_iff (by decide) (by decide)).mpr ⟨by decide, .inl ?_⟩
  have link : Link twoStages ⟨11, 0, 12⟩ ⟨12, 11, 0⟩ := ⟨by decide, by decide, rfl⟩
  intro a isA isInput
  refine ⟨⟨12, 11, 0⟩, by decide, rfl, ?_⟩
  rw [twoStages, List.mem_pair] at isA
  rcases isA with rfl | rfl
  · exact .single link
  · exact absurd isInput (by decide)

/-- An input agent in front of three agents in a circle. -/
def circle : List RegistrationRequest := [⟨11, 0, 12⟩, ⟨12, 11, 13⟩, ⟨13, 12, 14⟩, ⟨14, 13, 12⟩]

theorem circle_runsInCircles : RunsInCircles circle ⟨11, 0, 12⟩ := by
  have first : Link circle ⟨11, 0, 12⟩ ⟨12, 11, 13⟩ := ⟨by decide, by decide, rfl⟩
  have second : Link circle ⟨12, 11, 13⟩ ⟨13, 12, 14⟩ := ⟨by decide, by decide, rfl⟩
  have third : Link circle ⟨13, 12, 14⟩ ⟨14, 13, 12⟩ := ⟨by decide, by decide, rfl⟩
  have fourth : Link circle ⟨14, 13, 12⟩ ⟨12, 11, 13⟩ := ⟨by decide, by decide, rfl⟩
  refine ⟨⟨12, 11, 13⟩, .single first, ((TransGen.single second).tail third).tail fourth, ?_⟩
  intro c link back
  obtain rfl := Link.unique (by decide) second link
  exact absurd back.2.2 (by decide)

/-- An input agent whose output is not registered, and a pipeline of a single agent. -/
def twoInputs : List RegistrationRequest := [⟨11, 0, 19⟩, ⟨12, 0, 0⟩]

theorem not_detectsPipelines_circle_twoInputs :
    ((circle.map RegistrationRequest.pid).Nodup ∧ (∀ r ∈ circle, r.pid ≠ 0) ∧
        ¬ DetectsPipelines circle) ∧
      (twoInputs.map RegistrationRequest.pid).Nodup ∧ (∀ r ∈ twoInputs, r.pid ≠ 0) ∧
        ¬ DetectsPipelines twoInputs := by
  refine ⟨⟨by decide, by decide, fun detects => ?_⟩, by decide, by decide, fun detects => ?_⟩
  · have straight := detects.input (by decide) (by decide) (a := ⟨11, 0, 12⟩) (by decide) rfl
    exact straight.1 circle_runsInCircles
  · have input := detects.input (by decide) (by decide) (a := ⟨11, 0, 19⟩) (by decide) rfl
    rcases input.2 ⟨⟨12, 0, 0⟩, by decide, rfl, ⟨12, 0, 0⟩, by decide, rfl, .refl⟩ with
      ⟨z, isZ, isOutput, path⟩
    rcases path.cases_head with rfl | ⟨c, link, -⟩
    · exact absurd isOutput (by decide)
    · have noAgent : ∀ r ∈ twoInputs, r.pid ≠ 19 := by decide
      exact noAgent c link.2.1 link.2.2.symm

end Detects

end AgentPool

end MetalFs.Driver
