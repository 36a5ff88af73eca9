import MetalFs.Lib.Interrupt
import MetalFs.Driver.AgentPool

/-!
# The pipeline builder

`PipelineBuilder` turns the agents of a shell pipeline into a pipeline on the FPGA.  Each agent stands
for the operator that its type names.  Only `datagen` and `metal-cat`, which may come first, stand for
none, so that there may be one operator less than there are agents (`Accepted`).

The agents are known by references; what they point to is an argument.
-/

namespace MetalFs.Driver.Profiling

/-- An exception, or a call that C++ leaves undefined. -/
inductive Failure where
  | exception (what : String)
  | undefined
deriving DecidableEq, Repr

/-- What the driver reads of an `OperatorSpecification`. -/
structure OperatorSpecification where
  id : String
  streamID : UInt8
deriving DecidableEq, Repr

/-- The operators of the FPGA image; the map has one for each id. -/
structure OperatorFactory where
  operatorSpecifications : List OperatorSpecification
  distinct : (operatorSpecifications.map OperatorSpecification.id).Nodup

/-- `operatorSpecifications().find`. -/
def OperatorFactory.find (registry : OperatorFactory) (id : String) : Option OperatorSpecification :=
  registry.operatorSpecifications.find? fun op => op.id == id

/-- The option of an operator or pseudo-operator that the driver itself reads. -/
structure ParseResult where
  profile : Bool
deriving DecidableEq, Repr

/-- What the builder reads of an `OperatorAgent`. -/
structure OperatorAgent where
  operatorType : String
  /-- Parsing the arguments; for an operator, also passing the options on to it. -/
  parseOptions : Except Failure ParseResult
  /-- The arguments name an input file of the filesystem. -/
  internalInputFile : Bool
  internalInputFilename : String
  internalOutputFilename : String

namespace DatagenOperator

def id : String := "datagen"

def isDatagenAgent (agent : OperatorAgent) : Bool := agent.operatorType == id

def validate (agent : OperatorAgent) : Except Failure Unit := do
  let _ ← agent.parseOptions

def isProfilingEnabled (agent : OperatorAgent) : Except Failure Bool := do
  let optionValues ← agent.parseOptions
  return optionValues.profile

end DatagenOperator

namespace MetalCatOperator

def id : String := "metal-cat"

def isMetalCatAgent (agent : OperatorAgent) : Bool := agent.operatorType == id

def validate (agent : OperatorAgent) : Except Failure Unit := do
  let _ ← agent.parseOptions

def isProfilingEnabled (agent : OperatorAgent) : Except Failure Bool := do
  let optionValues ← agent.parseOptions
  return optionValues.profile

end MetalCatOperator

/-- `DevNullFile::isNullOutput`. -/
def isNullOutput (agent : OperatorAgent) : Bool := agent.internalOutputFilename == "$NULL"

/-- The agent stands for no operator. -/
def OperatorAgent.isPseudo (agent : OperatorAgent) : Bool :=
  DatagenOperator.isDatagenAgent agent || MetalCatOperator.isMetalCatAgent agent

/-- `OperatorContext`, with the specification of its operator. -/
structure OperatorContext where
  spec : OperatorSpecification
  profilingEnabled : Bool
  profilingResults : String
deriving DecidableEq, Repr

/-- `ConfiguredPipeline`, with the buffers of its data source and data sink. -/
structure ConfiguredPipeline where
  operatorAgents : List AgentRef
  operators : List OperatorContext
  dataSourceAgent : AgentRef
  dataSinkAgent : AgentRef
  inputBuffer : Bool
  outputBuffer : Bool
deriving Repr

structure PipelineBuilder where
  registry : OperatorFactory
  pipelineAgents : List AgentRef

section Builder

variable (agents : AgentRef → OperatorAgent)

/-- The loop of `resolveOperatorSpecifications`. -/
def resolveLoop (registry : OperatorFactory) (result : List (Option OperatorSpecification × AgentRef))
    (operatorsWithAgents : List OperatorSpecification) :
    List AgentRef → Except Failure (List (Option OperatorSpecification × AgentRef))
  | [] => .ok result
  | agent :: rest =>
    if (agents agent).isPseudo then
      if 0 < result.length then
        .error (.exception "Operator can only be used as the start of an FPGA pipeline")
      else resolveLoop registry (result ++ [(none, agent)]) operatorsWithAgents rest
    else
      match registry.find (agents agent).operatorType with
      | none => .error (.exception "Unknown operator was requested")
      | some op =>
        if op ∈ operatorsWithAgents then
          .error (.exception "Operator was used more than once")
        else resolveLoop registry (result ++ [(some op, agent)]) (op :: operatorsWithAgents) rest

/-- `instantiateOperator`. -/
def instantiateOperator (op : OperatorSpecification) (agent : OperatorAgent) :
    Except Failure OperatorContext := do
  let parseResult ← agent.parseOptions
  return ⟨op, parseResult.profile, ""⟩

/-- The loop that builds the pipeline. -/
def operatorContexts : List (Option OperatorSpecification × AgentRef) →
    Except Failure (List OperatorContext)
  | [] => .ok []
  | (none, _) :: rest => operatorContexts rest
  | (some op, agent) :: rest => do
    let context ← instantiateOperator op (agents agent)
    let contexts ← operatorContexts rest
    return context :: contexts

namespace PipelineBuilder

variable (builder : PipelineBuilder)

def resolveOperatorSpecifications :
    Except Failure (List (Option OperatorSpecification × AgentRef)) :=
  resolveLoop agents builder.registry [] [] builder.pipelineAgents

/-- Validate `datagen` and `metal_cat`. -/
def validate (dataSource : OperatorAgent) : Except Failure Unit :=
  if DatagenOperator.isDatagenAgent dataSource then DatagenOperator.validate dataSource
  else if MetalCatOperator.isMetalCatAgent dataSource then MetalCatOperator.validate dataSource
  else return

/-- `configure` up to the responses; it has no data source without an agent. -/
def configure : Except Failure ConfiguredPipeline := do
  let orderedOperatorSpecsAndAgents ← builder.resolveOperatorSpecifications agents
  let operators ← operatorContexts agents orderedOperatorSpecsAndAgents
  match orderedOperatorSpecsAndAgents.head?, orderedOperatorSpecsAndAgents.getLast? with
  | some (_, dataSourceAgent), some (_, dataSinkAgent) =>
    let dataSource := agents dataSourceAgent
    let dataSink := agents dataSinkAgent
    validate dataSource
    return {
      operatorAgents := builder.pipelineAgents
      operators
      dataSourceAgent
      dataSinkAgent
      inputBuffer := !dataSource.internalInputFile && dataSource.internalInputFilename == "" &&
        !DatagenOperator.isDatagenAgent dataSource
      outputBuffer := dataSink.internalOutputFilename == "" || isNullOutput dataSink }
  | _, _ => .error .undefined

end PipelineBuilder

end Builder

/-! ## Accepted pipelines -/

/-- What a configured pipeline is like, where `standing` are the agents that stand for operators. -/
structure Accepted (agents : AgentRef → OperatorAgent) (config : ConfiguredPipeline)
    (standing : List AgentRef) : Prop where
  inOrder : config.operatorAgents = standing ∨
    ∃ first, (agents first).isPseudo = true ∧ config.operatorAgents = first :: standing
  ordinary : ∀ agent ∈ standing, (agents agent).isPseudo = false
  types : (config.operators.map fun op => op.spec.id) =
    standing.map fun agent => (agents agent).operatorType
  distinct : (config.operators.map fun op => op.spec.id).Nodup
  unset : ∀ op ∈ config.operators, op.profilingResults = ""
  validated : PipelineBuilder.validate (agents config.dataSourceAgent) = .ok ()
  source : config.operatorAgents.head? = some config.dataSourceAgent
  sink : config.operatorAgents.getLast? = some config.dataSinkAgent

/-- `op` is what the type of the agent names. -/
def ResolvesTo (agents : AgentRef → OperatorAgent) (registry : OperatorFactory) (agent : AgentRef)
    (op : OperatorSpecification) : Prop :=
  (agents agent).isPseudo = false ∧ registry.find (agents agent).operatorType = some op

section Resolve

variable {agents : AgentRef → OperatorAgent} {registry : OperatorFactory}
  {result ordered : List (Option OperatorSpecification × AgentRef)}
  {ops used : List OperatorSpecification} {op : OperatorSpecification} {agent : AgentRef}
  {pipelineAgents : List AgentRef} {contexts : List OperatorContext}

theorem ResolvesTo.id_eq (resolves : ResolvesTo agents registry agent op) :
    op.id = (agents agent).operatorType :=
  beq_iff_eq.mp (List.find?_some (p := fun op : OperatorSpecification => op.id == _) resolves.2)

theorem ResolvesTo.mem (resolves : ResolvesTo agents registry agent op) :
    op ∈ registry.operatorSpecifications :=
  List.mem_of_find?_eq_some resolves.2

/-- Behind the first agent every agent stands for an operator of its own. -/
theorem resolveLoop_later (later : result ≠ [])
    (returned : resolveLoop agents registry result used pipelineAgents = .ok ordered) :
    ∃ ops, ordered = result ++ (ops.map some).zip pipelineAgents ∧
      List.Forall₂ (ResolvesTo agents registry) pipelineAgents ops ∧ ops.Nodup ∧
      ∀ op ∈ ops, op ∉ used := by
  induction pipelineAgents generalizing result used with
  | nil =>
    cases returned
    exact ⟨[], (List.append_nil _).symm, .nil, List.nodup_nil, fun op isIn => absurd isIn List.not_mem_nil⟩
  | cons agent rest ih =>
    rw [resolveLoop] at returned
    split at returned
    · rw [if_pos (List.length_pos_of_ne_nil later)] at returned
      cases returned
    · rename_i ordinary
      split at returned
      · cases returned
      · rename_i op found
        split at returned
        · cases returned
        · rename_i unused
          have more : result ++ [(some op, agent)] ≠ [] :=
            List.append_ne_nil_of_right_ne_nil _ (List.cons_ne_nil _ _)
          rcases ih more returned with ⟨ops, same, resolves, nodup, others⟩
          refine ⟨op :: ops, ?_, .cons ⟨Bool.not_eq_true _ ▸ ordinary, found⟩ resolves, ?_, ?_⟩
          · rw [same, List.append_assoc]
            rfl
          · refine List.nodup_cons.mpr ⟨?_, nodup⟩
            intro again
            exact others op again List.mem_cons_self
          · intro op' isIn
            rcases List.mem_cons.mp isIn with rfl | isIn
            · exact unused
            · intro wasUsed
              exact others op' isIn (List.mem_cons_of_mem _ wasUsed)

/-- The operators of the pipeline are those that were looked up. -/
theorem operatorContexts_spec (aligned : ops.length = pipelineAgents.length)
    (returned : operatorContexts agents ((ops.map some).zip pipelineAgents) = .ok contexts) :
    contexts.map OperatorContext.spec = ops ∧ ∀ op ∈ contexts, op.profilingResults = "" := by
  induction ops generalizing pipelineAgents contexts with
  | nil =>
    cases returned
    exact ⟨rfl, fun op isIn => absurd isIn List.not_mem_nil⟩
  | cons op ops ih =>
    cases pipelineAgents with
    | nil => cases aligned
    | cons agent rest =>
      rw [List.map_cons, List.zip_cons_cons, operatorContexts, instantiateOperator] at returned
      rcases Interrupt.bind_eq_ok returned with ⟨context, instantiated, returned⟩
      rcases Interrupt.bind_eq_ok returned with ⟨contexts', later, same⟩
      rcases Interrupt.bind_eq_ok instantiated with ⟨parseResult, -, same'⟩
      cases same
      cases same'
      rcases ih (Nat.succ.inj aligned) later with ⟨specs, unset⟩
      refine ⟨by rw [List.map_cons, specs], ?_⟩
      intro context isIn
      rcases List.mem_cons.mp isIn with rfl | isIn
      · rfl
      · exact unset context isIn

/-- What the specifications and agents that `resolveOperatorSpecifications` returns are like. -/
theorem resolveLoop_spec
    (returned : resolveLoop agents registry [] [] pipelineAgents = .ok ordered) :
    ∃ standing ops, List.Forall₂ (ResolvesTo agents registry) standing ops ∧ ops.Nodup ∧
      (pipelineAgents = standing ∧ ordered = (ops.map some).zip standing ∨
        ∃ first, (agents first).isPseudo = true ∧ pipelineAgents = first :: standing ∧
          ordered = (none, first) :: (ops.map some).zip standing) := by
  cases pipelineAgents with
  | nil =>
    cases returned
    exact ⟨[], [], .nil, List.nodup_nil, Or.inl ⟨rfl, rfl⟩⟩
  | cons agent rest =>
    rw [resolveLoop] at returned
    split at returned
    · rename_i pseudo
      rcases resolveLoop_later (List.cons_ne_nil _ _) returned with ⟨ops, same, resolves, nodup, -⟩
      exact ⟨rest, ops, resolves, nodup, Or.inr ⟨agent, pseudo, rfl, same⟩⟩
    · rename_i ordinary
      split at returned
      · cases returned
      · rename_i op found
        rcases resolveLoop_later (List.cons_ne_nil _ _) returned with
          ⟨ops, same, resolves, nodup, others⟩
        refine ⟨agent :: rest, op :: ops,
          .cons ⟨Bool.eq_false_iff.mpr ordinary, found⟩ resolves, ?_, Or.inl ⟨rfl, same⟩⟩
        refine List.nodup_cons.mpr ⟨?_, nodup⟩
        intro again
        exact others op again (List.mem_singleton_self op)

theorem resolved_agents {standing : List AgentRef}
    (resolves : List.Forall₂ (ResolvesTo agents registry) standing ops) :
    (∀ agent ∈ standing, (agents agent).isPseudo = false) ∧
      (∀ op ∈ ops, op ∈ registry.operatorSpecifications) ∧
      ops.map OperatorSpecification.id = standing.map fun agent => (agents agent).operatorType := by
  induction resolves with
  | nil => exact ⟨fun _ isIn => absurd isIn List.not_mem_nil,
      fun _ isIn => absurd isIn List.not_mem_nil, rfl⟩
  | cons resolves _ ih =>
    rcases ih with ⟨ordinary, members, types⟩
    refine ⟨List.forall_mem_cons.mpr ⟨resolves.1, ordinary⟩,
      List.forall_mem_cons.mpr ⟨resolves.mem, members⟩, ?_⟩
    rw [List.map_cons, List.map_cons, types, resolves.id_eq]

/-- The agents of the specifications are those of the pipeline. -/
theorem agents_of_resolved {standing : List AgentRef}
    (resolves : List.Forall₂ (ResolvesTo agents registry) standing ops)
    (shape : pipelineAgents = standing ∧ ordered = (ops.map some).zip standing ∨
      ∃ first, (agents first).isPseudo = true ∧ pipelineAgents = first :: standing ∧
        ordered = (none, first) :: (ops.map some).zip standing) :
    ordered.map Prod.snd = pipelineAgents := by
  have whole : ((ops.map some).zip standing).map Prod.snd = standing := by
    refine List.map_snd_zip ?_
    rw [List.length_map, resolves.length_eq]
  rcases shape with ⟨rfl, rfl⟩ | ⟨first, -, rfl, rfl⟩
  · exact whole
  · rw [List.map_cons, whole]

end Resolve

/-- What `configure` returns is an accepted pipeline. -/
theorem PipelineBuilder.configure_accepted {agents : AgentRef → OperatorAgent}
    {builder : PipelineBuilder} {config : ConfiguredPipeline}
    (configured : builder.configure agents = .ok config) :
    config.operatorAgents = builder.pipelineAgents ∧ ∃ standing, Accepted agents config standing := by
  rcases Interrupt.bind_eq_ok configured with ⟨ordered, resolved, configured⟩
  rcases Interrupt.bind_eq_ok configured with ⟨operators, instantiated, configured⟩
  rcases resolveLoop_spec resolved with ⟨standing, ops, resolves, nodup, shape⟩
  rcases resolved_agents resolves with ⟨ordinary, members, types⟩
  have agentsSame := agents_of_resolved resolves shape
  have contexts : operatorContexts agents ((ops.map some).zip standing) = .ok operators := by
    rcases shape with ⟨-, rfl⟩ | ⟨first, -, -, rfl⟩
    · exact instantiated
    · exact instantiated
  rcases operatorContexts_spec resolves.length_eq.symm contexts with ⟨specs, unset⟩
  have ids : (operators.map fun op => op.spec.id) = ops.map OperatorSpecification.id := by
    rw [← specs, List.map_map]
    rfl
  split at configured
  · rename_i firstOp dataSourceAgent lastOp dataSinkAgent first last
    rcases Interrupt.bind_eq_ok configured with ⟨_, validated, same'⟩
    cases same'
    refine ⟨rfl, standing, ?_, ?_, ?_, ?_, unset, validated, ?_, ?_⟩
    · rcases shape with ⟨rfl, -⟩ | ⟨pseudo, isPseudo, all, -⟩
      · exact Or.inl rfl
      · exact Or.inr ⟨pseudo, isPseudo, all⟩
    · exact ordinary
    · rw [ids, types]
    · rw [ids]
      refine nodup.map_on ?_
      intro op isIn op' isIn' same
      exact List.inj_on_of_nodup_map builder.registry.distinct (members op isIn) (members op' isIn') same
    · rw [← agentsSame, List.head?_map, first]
      rfl
    · rw [← agentsSame, List.getLast?_map, last]
      rfl
  · cases configured

end MetalFs.Driver.Profiling
