import MetalFs.Lib.Trail

/-!
# The agent pool

Every operator of a shell pipeline is a process of its own that registers with the
driver.  Its `RegistrationRequest` names the processes it reads from and writes to, 0
where that is not an operator.  `AgentPool` links the registered agents by these numbers
and looks for a pipeline: agents from one without an input process to one without an
output process.

The registered agents are an `unordered_set` of pointers.  In which order a loop goes
through them is not the pool's to choose, so that it is an argument of the functions that
have such a loop.
-/

namespace MetalFs.Driver

open Trail

/-- The fields of a `RegistrationRequest` that the pool reads. -/
structure RegistrationRequest where
  pid : UInt32
  inputPid : UInt32
  outputPid : UInt32
deriving DecidableEq, Repr

/-- What a `shared_ptr<OperatorAgent>` points to. -/
abbrev AgentRef := Nat

structure OperatorAgent where
  pid : UInt32
  inputAgentPid : UInt32
  outputAgentPid : UInt32
  outputAgent : Option AgentRef
  error : String
  terminated : Bool
deriving DecidableEq, Repr

namespace OperatorAgent

/-- The constructor, which receives the request. -/
def new (request : RegistrationRequest) : OperatorAgent where
  pid := request.pid
  inputAgentPid := request.inputPid
  outputAgentPid := request.outputPid
  outputAgent := none
  error := ""
  terminated := false

/-- The request the agent was constructed from. -/
def request (agent : OperatorAgent) : RegistrationRequest where
  pid := agent.pid
  inputPid := agent.inputAgentPid
  outputPid := agent.outputAgentPid

def isOutputConnectedTo (agent other : OperatorAgent) : Bool := other.pid == agent.outputAgentPid

def isInputAgent (agent : OperatorAgent) : Bool := agent.inputAgentPid == 0

def isOutputAgent (agent : OperatorAgent) : Bool := agent.outputAgentPid == 0

def setOutputAgent (agent : OperatorAgent) (output : AgentRef) : OperatorAgent :=
  { agent with outputAgent := some output }

def setError (agent : OperatorAgent) (error : String) : OperatorAgent := { agent with error := error }

def setTerminated (agent : OperatorAgent) : OperatorAgent := { agent with terminated := true }

end OperatorAgent

structure AgentPool where
  /-- The agents that were ever constructed. -/
  agents : AgentRef → OperatorAgent
  /-- How many there are. -/
  constructed : Nat
  registeredAgents : Finset AgentRef
  pipelineAgents : List AgentRef
  containsValidPipelineCached : Bool

/-- A loop over `set` may go through it in this order. -/
def Enumerates (order : List AgentRef) (set : Finset AgentRef) : Prop :=
  order.Nodup ∧ order.toFinset = set

namespace AgentPool

/-- A new pool.  Its constructor leaves the flag unset. -/
def new (unset : Bool) : AgentPool where
  agents := fun _ => OperatorAgent.new ⟨0, 0, 0⟩
  constructed := 0
  registeredAgents := ∅
  pipelineAgents := []
  containsValidPipelineCached := unset

/-- The body of the loop of `registerAgent`. -/
def linkTo (agent : AgentRef) (agents : AgentRef → OperatorAgent) (otherAgent : AgentRef) :
    AgentRef → OperatorAgent :=
  if (agents otherAgent).isOutputConnectedTo (agents agent) then
    Function.update agents otherAgent ((agents otherAgent).setOutputAgent agent)
  else if (agents agent).isOutputConnectedTo (agents otherAgent) then
    Function.update agents agent ((agents agent).setOutputAgent otherAgent)
  else agents

/-- `registerAgent` once the request has been received.  If that fails the exception leaves
the pool as it was. -/
def registerAgent (pool : AgentPool) (order : List AgentRef) (request : RegistrationRequest) :
    AgentPool :=
  let agent := pool.constructed
  let agents := Function.update pool.agents agent (OperatorAgent.new request)
  { pool with
    agents := order.foldl (linkTo agent) agents
    constructed := agent + 1
    registeredAgents := insert agent pool.registeredAgents
    containsValidPipelineCached := false }

/-- The loop of `containsValidPipeline`; `none` if it has not ended after `fuel` agents. -/
def walkPipeline (agents : AgentRef → OperatorAgent) :
    Nat → List AgentRef → Option AgentRef → Option (List AgentRef)
  | _, pipelineAgents, none => some pipelineAgents
  | 0, _, some _ => none
  | fuel + 1, pipelineAgents, some pipelineAgent =>
    let pipelineAgents := pipelineAgents ++ [pipelineAgent]
    if (agents pipelineAgent).isOutputAgent then some pipelineAgents
    else walkPipeline agents fuel pipelineAgents (agents pipelineAgent).outputAgent

def containsValidPipeline (pool : AgentPool) (order : List AgentRef) (fuel : Nat) :
    Option (Bool × AgentPool) :=
  if pool.containsValidPipelineCached then some (true, pool)
  else
    match order.find? fun agent => (pool.agents agent).isInputAgent with
    | none => some (false, pool)
    | some pipelineStart => do
      let pipelineAgents ← walkPipeline pool.agents fuel [] (some pipelineStart)
      if pipelineAgents.getLast?.any fun agent => (pool.agents agent).isOutputAgent then
        some (true, { pool with
          containsValidPipelineCached := true
          pipelineAgents := pipelineAgents
          registeredAgents := pipelineAgents.foldl Finset.erase pool.registeredAgents })
      else some (false, pool)

def cachedPipeline (pool : AgentPool) : List AgentRef := pool.pipelineAgents

/-- Change the object that `agent` points to. -/
def update (pool : AgentPool) (agent : AgentRef) (f : OperatorAgent → OperatorAgent) : AgentPool :=
  { pool with agents := Function.update pool.agents agent (f (pool.agents agent)) }

end AgentPool

/-! ## The links between the agents -/

/-- The agent of `a` writes to the agent of `b`. -/
def RegistrationRequest.WritesTo (a b : RegistrationRequest) : Prop := a.outputPid = b.pid

instance (a b : RegistrationRequest) : Decidable (a.WritesTo b) :=
  inferInstanceAs (Decidable (a.outputPid = b.pid))

namespace OperatorAgent

@[simp] theorem request_new (request : RegistrationRequest) : (new request).request = request := rfl

@[simp] theorem request_setOutputAgent (agent : OperatorAgent) (output : AgentRef) :
    (agent.setOutputAgent output).request = agent.request := rfl

@[simp] theorem outputAgent_setOutputAgent (agent : OperatorAgent) (output : AgentRef) :
    (agent.setOutputAgent output).outputAgent = some output := rfl

theorem isOutputConnectedTo_iff {agent other : OperatorAgent} :
    agent.isOutputConnectedTo other ↔ agent.request.WritesTo other.request :=
  beq_iff_eq.trans eq_comm

theorem isInputAgent_iff {agent : OperatorAgent} :
    agent.isInputAgent ↔ agent.request.inputPid = 0 := beq_iff_eq

theorem isOutputAgent_iff {agent : OperatorAgent} :
    agent.isOutputAgent ↔ agent.request.outputPid = 0 := beq_iff_eq

end OperatorAgent

namespace AgentPool

section Link

variable {agents : AgentRef → OperatorAgent} {agent other x t : AgentRef} {order : List AgentRef}

/-- Only the links change. -/
theorem linkTo_kept {β : Type} (f : OperatorAgent → β)
    (kept : ∀ a o, f (a.setOutputAgent o) = f a) : f (linkTo agent agents other x) = f (agents x) := by
  unfold linkTo
  split_ifs
  · rcases eq_or_ne x other with rfl | apart
    · rw [Function.update_self, kept]
    · rw [Function.update_of_ne apart]
  · rcases eq_or_ne x agent with rfl | apart
    · rw [Function.update_self, kept]
    · rw [Function.update_of_ne apart]
  · rfl

theorem foldl_linkTo_kept {β : Type} (f : OperatorAgent → β)
    (kept : ∀ a o, f (a.setOutputAgent o) = f a) :
    f (order.foldl (linkTo agent) agents x) = f (agents x) := by
  induction order using List.reverseRecOn with
  | nil => rfl
  | append_singleton order other ih => rw [List.foldl_concat, linkTo_kept f kept, ih]

theorem foldl_linkTo_request :
    (order.foldl (linkTo agent) agents x).request = (agents x).request :=
  foldl_linkTo_kept OperatorAgent.request fun _ _ => rfl

theorem linkTo_outputAgent_of_ne (apart : x ≠ agent) :
    (linkTo agent agents other x).outputAgent =
      if x = other ∧ (agents x).request.WritesTo (agents agent).request then some agent
      else (agents x).outputAgent := by
  simp only [linkTo, OperatorAgent.isOutputConnectedTo_iff]
  split_ifs with first both second both both
  · rw [both.1, Function.update_self, OperatorAgent.outputAgent_setOutputAgent]
  · have : x ≠ other := by
      rintro rfl
      exact both ⟨rfl, first⟩
    rw [Function.update_of_ne this]
  · rw [both.1] at both
    exact absurd both.2 first
  · rw [Function.update_of_ne apart]
  · rw [both.1] at both
    exact absurd both.2 first
  · rfl

/-- The new agent's own link after one pass of the loop: the first branch goes before. -/
theorem linkTo_outputAgent_self (apart : other ≠ agent) :
    (linkTo agent agents other agent).outputAgent =
      if (agents agent).request.WritesTo (agents other).request ∧
          ¬ (agents other).request.WritesTo (agents agent).request then some other
      else (agents agent).outputAgent := by
  simp only [linkTo, OperatorAgent.isOutputConnectedTo_iff]
  split_ifs with first both second both both
  · exact absurd first both.2
  · rw [Function.update_of_ne apart.symm]
  · rw [Function.update_self, OperatorAgent.outputAgent_setOutputAgent]
  · exact absurd ⟨second, first⟩ both
  · exact absurd both.1 second
  · rfl

theorem foldl_linkTo_outputAgent_of_ne (apart : x ≠ agent) :
    (order.foldl (linkTo agent) agents x).outputAgent =
      if x ∈ order ∧ (agents x).request.WritesTo (agents agent).request then some agent
      else (agents x).outputAgent := by
  induction order using List.reverseRecOn with
  | nil => rw [List.foldl_nil, if_neg fun both => absurd both.1 List.not_mem_nil]
  | append_singleton order other ih =>
    rw [List.foldl_concat, linkTo_outputAgent_of_ne apart, foldl_linkTo_request,
      foldl_linkTo_request, ih]
    by_cases writes : (agents x).request.WritesTo (agents agent).request
    · simp only [writes, and_true, List.mem_append, List.mem_singleton]
      split_ifs <;> tauto
    · simp only [writes, and_false, if_false]

theorem foldl_linkTo_outputAgent_self (fresh : agent ∉ order)
    (distinct : ∀ s ∈ order, ∀ t ∈ order,
      (agents s).request.pid = (agents t).request.pid → s = t)
    (unset : (agents agent).outputAgent = none) :
    (order.foldl (linkTo agent) agents agent).outputAgent = some t ↔
      t ∈ order ∧ (agents agent).request.WritesTo (agents t).request ∧
        ¬ (agents t).request.WritesTo (agents agent).request := by
  induction order using List.reverseRecOn with
  | nil =>
    rw [List.foldl_nil, unset]
    exact ⟨nofun, fun both => absurd both.1 List.not_mem_nil⟩
  | append_singleton order other ih =>
    rw [List.mem_append, List.mem_singleton, not_or] at fresh
    have ih := ih fresh.1 fun s sIn t tIn =>
      distinct s (List.mem_append_left _ sIn) t (List.mem_append_left _ tIn)
    rw [List.foldl_concat, linkTo_outputAgent_self (Ne.symm fresh.2), foldl_linkTo_request,
      foldl_linkTo_request, List.mem_append, List.mem_singleton]
    split_ifs with points
    · constructor
      · intro same
        cases same
        exact ⟨.inr rfl, points⟩
      · rintro ⟨inOrder, writes, -⟩
        -- Only one of the agents has the number.
        have same : other = t := distinct other (by simp) t (by simpa using inOrder)
          (points.1.symm.trans writes)
        rw [same]
    · rw [ih]
      constructor
      · rintro ⟨inOrder, both⟩
        exact ⟨.inl inOrder, both⟩
      · rintro ⟨inOrder | rfl, both⟩
        · exact ⟨inOrder, both⟩
        · exact absurd both points

theorem foldl_linkTo_outputAgent_mem (fresh : agent ∉ order)
    (unset : (agents agent).outputAgent = none)
    (linked : (order.foldl (linkTo agent) agents agent).outputAgent = some t) : t ∈ order := by
  induction order using List.reverseRecOn with
  | nil =>
    rw [List.foldl_nil, unset] at linked
    cases linked
  | append_singleton order other ih =>
    rw [List.mem_append, List.mem_singleton, not_or] at fresh
    rw [List.foldl_concat, linkTo_outputAgent_self (Ne.symm fresh.2)] at linked
    split_ifs at linked
    · cases linked
      exact List.mem_append_right _ (List.mem_singleton_self t)
    · exact List.mem_append_left _ (ih fresh.1 linked)

end Link

/-! ## What the pool knows about the registered agents -/

/-- The request that a registered agent was constructed from. -/
def request (pool : AgentPool) (agent : AgentRef) : RegistrationRequest := (pool.agents agent).request

/-- The pool was empty before `requests` were registered, in this order.  Where a loop goes
through the registered agents, any order is allowed. -/
inductive Registered : List RegistrationRequest → AgentPool → Prop
  | empty {pool : AgentPool} : pool.registeredAgents = ∅ → Registered [] pool
  | register {requests : List RegistrationRequest} {pool : AgentPool} {order : List AgentRef}
      (request : RegistrationRequest) :
    Registered requests pool → Enumerates order pool.registeredAgents →
    Registered (requests ++ [request]) (pool.registerAgent order request)

/-- The registered agents are those of `requests`, and each one is linked to the agent it
writes to.  An agent is not linked to itself, and if two agents write to each other only the
older one is linked. -/
structure Holds (requests : List RegistrationRequest) (pool : AgentPool) : Prop where
  fresh : ∀ agent ∈ pool.registeredAgents, agent < pool.constructed
  requests : pool.registeredAgents.val.map pool.request = requests
  links : ∀ agent ∈ pool.registeredAgents, ∀ t, (pool.agents agent).outputAgent = some t ↔
    t ∈ pool.registeredAgents ∧ (pool.request agent).WritesTo (pool.request t) ∧
      ((pool.request t).WritesTo (pool.request agent) → agent < t)

section Holds

variable {requests : List RegistrationRequest} {request : RegistrationRequest} {pool : AgentPool}
  {order : List AgentRef} {agent other : AgentRef}

theorem Holds.of_empty (empty : pool.registeredAgents = ∅) : Holds [] pool := by
  constructor
  · rw [empty]
    exact fun agent inEmpty => absurd inEmpty (Finset.notMem_empty agent)
  · rw [empty]
    rfl
  · rw [empty]
    exact fun agent inEmpty => absurd inEmpty (Finset.notMem_empty agent)

theorem Holds.request_mem (holds : Holds requests pool) (isRegistered : agent ∈ pool.registeredAgents) :
    pool.request agent ∈ requests := by
  rw [← Multiset.mem_coe, ← holds.requests]
  exact Multiset.mem_map_of_mem _ isRegistered

theorem Holds.exists_agent (holds : Holds requests pool) (isRequest : request ∈ requests) :
    ∃ agent ∈ pool.registeredAgents, pool.request agent = request := by
  rw [← Multiset.mem_coe, ← holds.requests] at isRequest
  exact Multiset.mem_map.mp isRequest

/-- The numbers of the processes tell the agents apart. -/
theorem Holds.eq_of_pid (holds : Holds requests pool)
    (distinct : (requests.map RegistrationRequest.pid).Nodup)
    (isRegistered : agent ∈ pool.registeredAgents) (isOther : other ∈ pool.registeredAgents)
    (same : (pool.request agent).pid = (pool.request other).pid) : agent = other := by
  have distinct' : (pool.registeredAgents.val.map (RegistrationRequest.pid ∘ pool.request)).Nodup := by
    rw [← Multiset.map_map RegistrationRequest.pid, holds.requests]
    exact Multiset.coe_nodup.mpr distinct
  exact Multiset.inj_on_of_nodup_map distinct' agent isRegistered other isOther same

@[simp] theorem registerAgent_request :
    (pool.registerAgent order request).request agent =
      if agent = pool.constructed then request else pool.request agent := by
  change (order.foldl (linkTo pool.constructed) _ agent).request = _
  rw [foldl_linkTo_request]
  split_ifs with new
  · rw [new, Function.update_self, OperatorAgent.request_new]
  · rw [Function.update_of_ne new, AgentPool.request]

theorem registerAgent_terminated :
    ((pool.registerAgent order request).agents agent).terminated =
      if agent = pool.constructed then false else (pool.agents agent).terminated := by
  change (order.foldl (linkTo pool.constructed) _ agent).terminated = _
  rw [foldl_linkTo_kept OperatorAgent.terminated fun _ _ => rfl]
  split_ifs with new
  · rw [new, Function.update_self]
    rfl
  · rw [Function.update_of_ne new]

theorem registerAgent_outputAgent_of_ne (apart : agent ≠ pool.constructed) :
    ((pool.registerAgent order request).agents agent).outputAgent =
      if agent ∈ order ∧ (pool.request agent).WritesTo request then some pool.constructed
      else (pool.agents agent).outputAgent := by
  change (order.foldl (linkTo pool.constructed) _ agent).outputAgent = _
  rw [foldl_linkTo_outputAgent_of_ne apart, Function.update_self, Function.update_of_ne apart]
  rfl

theorem registerAgent_outputAgent_self (fresh : pool.constructed ∉ order)
    (distinct : ∀ s ∈ order, ∀ t ∈ order, (pool.request s).pid = (pool.request t).pid → s = t) :
    ((pool.registerAgent order request).agents pool.constructed).outputAgent = some other ↔
      other ∈ order ∧ request.WritesTo (pool.request other) ∧
        ¬ (pool.request other).WritesTo request := by
  have old : ∀ x ∈ order, Function.update pool.agents pool.constructed (OperatorAgent.new request) x =
      pool.agents x := by
    intro x inOrder
    rw [Function.update_of_ne]
    rintro rfl
    exact fresh inOrder
  change (order.foldl (linkTo pool.constructed) _ pool.constructed).outputAgent = some other ↔ _
  rw [foldl_linkTo_outputAgent_self fresh, Function.update_self, OperatorAgent.request_new]
  · refine and_congr_right fun inOrder => ?_
    rw [old other inOrder]
    rfl
  · intro s sIn t tIn same
    rw [old s sIn, old t tIn] at same
    exact distinct s sIn t tIn same
  · rw [Function.update_self]
    rfl

theorem Holds.registerAgent (holds : Holds requests pool)
    (distinct : ((requests ++ [request]).map RegistrationRequest.pid).Nodup)
    (enumerates : Enumerates order pool.registeredAgents) :
    Holds (requests ++ [request]) (pool.registerAgent order request) := by
  have notMem : pool.constructed ∉ pool.registeredAgents := fun isIn =>
    lt_irrefl _ (holds.fresh _ isIn)
  have notNew : ∀ x ∈ pool.registeredAgents, x ≠ pool.constructed := fun x isIn =>
    (holds.fresh x isIn).ne
  have inOrder : ∀ x, x ∈ order ↔ x ∈ pool.registeredAgents := fun x => by
    rw [← enumerates.2, List.mem_toFinset]
  have distinctOld : (requests.map RegistrationRequest.pid).Nodup := by
    rw [List.map_append] at distinct
    exact distinct.of_append_left
  have otherPid : ∀ x ∈ pool.registeredAgents, (pool.request x).pid ≠ request.pid := by
    intro x isIn same
    rw [List.map_append, List.nodup_append] at distinct
    exact distinct.2.2 _ (List.mem_map_of_mem (holds.request_mem isIn)) _
      (List.mem_singleton_self _) same
  constructor
  · intro x isIn
    rcases Finset.mem_insert.mp isIn with rfl | old
    · exact Nat.lt_succ_self _
    · exact (holds.fresh x old).trans (Nat.lt_succ_self _)
  · change (insert pool.constructed pool.registeredAgents).val.map _ = _
    rw [Finset.insert_val_of_notMem notMem, Multiset.map_cons, registerAgent_request, if_pos rfl,
      Multiset.map_congr rfl fun x isIn => by
        rw [registerAgent_request, if_neg (notNew x isIn)], holds.requests, Multiset.cons_coe,
      Multiset.coe_eq_coe]
    exact (List.perm_append_singleton request requests).symm
  · intro x isIn t
    have memNew : t ∈ (pool.registerAgent order request).registeredAgents ↔
        t = pool.constructed ∨ t ∈ pool.registeredAgents := Finset.mem_insert
    rw [memNew, registerAgent_request, registerAgent_request]
    rcases Finset.mem_insert.mp isIn with rfl | old
    · -- The link of the new agent, which is younger than all others.
      have distinctRefs : ∀ s ∈ order, ∀ t ∈ order,
          (pool.request s).pid = (pool.request t).pid → s = t := fun s sIn t tIn =>
        holds.eq_of_pid distinctOld ((inOrder s).mp sIn) ((inOrder t).mp tIn)
      rw [registerAgent_outputAgent_self (fun isIn => notMem ((inOrder _).mp isIn)) distinctRefs,
        inOrder, if_pos rfl]
      constructor
      · rintro ⟨isOld, writes, notBack⟩
        rw [if_neg (notNew t isOld)]
        exact ⟨.inr isOld, writes, fun back => absurd back notBack⟩
      · rintro ⟨rfl | isOld, writes, younger⟩
        · rw [if_pos rfl] at writes younger
          exact absurd (younger writes) (lt_irrefl _)
        · rw [if_neg (notNew t isOld)] at writes younger
          refine ⟨isOld, writes, fun back => ?_⟩
          exact absurd (younger back) (holds.fresh t isOld).not_gt
    · -- The link of an older agent.
      rw [registerAgent_outputAgent_of_ne (notNew x old), if_neg (notNew x old)]
      split_ifs with linked isNew isNew
      · rw [isNew]
        exact ⟨fun _ => ⟨.inl rfl, linked.2, fun _ => holds.fresh x old⟩, fun _ => rfl⟩
      · constructor
        · intro same
          exact absurd (Option.some.inj same).symm isNew
        · rintro ⟨rfl | isOld, writes, -⟩
          · exact absurd rfl isNew
          · exact absurd (writes.symm.trans linked.2) (otherPid t isOld)
      · rw [isNew, holds.links x old]
        constructor
        · rintro ⟨isOld, -⟩
          exact absurd isOld notMem
        · rintro ⟨-, writes, -⟩
          exact absurd ⟨(inOrder x).mpr old, writes⟩ linked
      · rw [holds.links x old, or_iff_right isNew]

end Holds

end AgentPool

end MetalFs.Driver
