import MetalFs.Driver.PipelineBuilder

/-!
# The profiling results of a pipeline

`ProfilingPipelineRunner` measures the streams around one operator, or the data source or sink, and
stores a text with the results there in the last round.  `PipelineLoop::run` passes the texts on: the
contexts of the data source and of the data sink answer the first and the last agent, and a loop over
the agents and the operators answers those in between.  That loop begins with the first operator
also if the first agent stands for it, which is answered elsewhere.

The rounds and what the performance counters show are arguments, and so is how the numbers of a line
are written.  The calls to the sockets and the card do not throw.
-/

namespace MetalFs.Driver.Profiling

/-! ## The runner -/

structure ProfilingResults where
  globalClockCounter : UInt64
  inputDataByteCount : UInt64
  inputTransferCycleCount : UInt64
  inputSlaveIdleCount : UInt64
  inputMasterIdleCount : UInt64
  outputDataByteCount : UInt64
  outputTransferCycleCount : UInt64
  outputSlaveIdleCount : UInt64
  outputMasterIdleCount : UInt64
deriving DecidableEq, Repr

/-- What the job `ReadPerfmonCounters` delivers. -/
structure PerfmonCounters where
  results64 : UInt64
  results32 : Fin 10 → UInt32

/-- The counters are added up over the rounds. -/
def ProfilingResults.add (results : ProfilingResults) (counters : PerfmonCounters) :
    ProfilingResults where
  globalClockCounter := results.globalClockCounter + counters.results64
  inputTransferCycleCount := results.inputTransferCycleCount + (counters.results32 0).toUInt64
  inputDataByteCount := results.inputDataByteCount + (counters.results32 2).toUInt64
  inputSlaveIdleCount := results.inputSlaveIdleCount + (counters.results32 3).toUInt64
  inputMasterIdleCount := results.inputMasterIdleCount + (counters.results32 4).toUInt64
  outputTransferCycleCount := results.outputTransferCycleCount + (counters.results32 5).toUInt64
  outputDataByteCount := results.outputDataByteCount + (counters.results32 7).toUInt64
  outputSlaveIdleCount := results.outputSlaveIdleCount + (counters.results32 8).toUInt64
  outputMasterIdleCount := results.outputMasterIdleCount + (counters.results32 9).toUInt64

/-- What the outside decides about a run. -/
structure Environment where
  /-- The number of rounds before the one that reaches the end of the input. -/
  earlierRounds : Nat
  outputSize : Nat → Nat
  perfmonCounters : Nat → PerfmonCounters
  inputLine : ProfilingResults → String
  outputLine : ProfilingResults → String

/-- `formatProfilingResults`. -/
def formatProfilingResults (env : Environment) (results : ProfilingResults)
    (dataSource dataSink : Bool) : String :=
  "STREAM  BYTES TRANSFERRED  ACTIVE CYCLES  DATA WAIT      CONSUMER WAIT  TOTAL CYCLES  MiB/s\n" ++
    (if dataSource then "" else env.inputLine results ++ "\n") ++
    (if dataSink then "" else env.outputLine results ++ "\n")

/-- `IOStreamID`. -/
def ioStreamID : UInt8 := 0

/-- What `DataSourceContext` and `DataSinkContext` have in common. -/
structure DataContext where
  profilingEnabled : Bool
  profilingResults : String
deriving DecidableEq, Repr

/-- `ProcessingResponse`, with its text. -/
structure ProcessingResponse where
  size : Nat
  eof : Bool
  message : String
deriving DecidableEq, Repr

/-- The runner with the objects that it changes, and the messages that have been sent. -/
structure Runner where
  operators : List OperatorContext
  dataSource : DataContext
  dataSink : DataContext
  profileStreamIds : Option (UInt8 × UInt8)
  results : ProfilingResults
  sent : List (AgentRef × ProcessingResponse)

/-- The loop of `preRun`: the operators from the selected one on, or none. -/
def selectOperator (operatorPosition : List OperatorContext) :
    List OperatorContext → Except Failure (List OperatorContext)
  | [] => .ok operatorPosition
  | op :: rest =>
    if op.profilingEnabled then
      if operatorPosition.isEmpty then selectOperator (op :: rest) rest
      else .error (.exception "Only one operator can be selected for profiling.")
    else selectOperator operatorPosition rest

/-- The streams to measure. -/
def selectStreams (operatorPosition operators : List OperatorContext)
    (dataSource dataSink : DataContext) : Option (UInt8 × UInt8) :=
  if dataSink.profilingEnabled then some (ioStreamID, ioStreamID)
  else if dataSource.profilingEnabled then
    match operators with
    | [] => some (ioStreamID, ioStreamID)
    | op :: _ => some (op.spec.streamID, op.spec.streamID)
  else
    match operatorPosition with
    | [] => none
    | [op] => some (op.spec.streamID, ioStreamID)
    | op :: next :: _ => some (op.spec.streamID, next.spec.streamID)

/-- `preRun`. -/
def preRun (isInitial : Bool) (runner : Runner) : Except Failure Runner :=
  if isInitial then do
    let operatorPosition ← selectOperator [] runner.operators
    let operatorsToProfile := [!operatorPosition.isEmpty, runner.dataSource.profilingEnabled,
      runner.dataSink.profilingEnabled]
    if 1 < operatorsToProfile.count true then
      .error (.exception "Only one operator can be selected for profiling.")
    else
      return { runner with
        profileStreamIds := selectStreams operatorPosition runner.operators runner.dataSource
          runner.dataSink }
  else return runner

/-- Store the results in the first operator with this stream. -/
def setProfilingResults (streamID : UInt8) (results : String) :
    List OperatorContext → List OperatorContext
  | [] => []
  | op :: rest =>
    if op.spec.streamID = streamID then { op with profilingResults := results } :: rest
    else op :: setProfilingResults streamID results rest

/-- `postRun`. -/
def postRun (env : Environment) (round : Nat) (finalize : Bool) (runner : Runner) : Runner :=
  match runner.profileStreamIds with
  | none => runner
  | some profileStreamIds =>
    let results := runner.results.add (env.perfmonCounters round)
    let runner := { runner with results }
    if finalize then
      if runner.dataSource.profilingEnabled then
        { runner with
          dataSource.profilingResults := formatProfilingResults env results true false }
      else if runner.dataSink.profilingEnabled then
        { runner with
          dataSink.profilingResults := formatProfilingResults env results false true }
      else
        { runner with
          operators := setProfilingResults profileStreamIds.1
            (formatProfilingResults env results false false) runner.operators }
    else runner

/-! ## The loop -/

section Loop

variable (agents : AgentRef → OperatorAgent) (env : Environment) (config : ConfiguredPipeline)

def Runner.send (agent : AgentRef) (message : ProcessingResponse) (runner : Runner) : Runner :=
  { runner with sent := runner.sent ++ [(agent, message)] }

/-- `singleStagePipeline`. -/
def ConfiguredPipeline.singleStage : Bool := config.dataSourceAgent == config.dataSinkAgent

/-- `AgentDataSourceContext::finalize`. -/
def finalizeSource (eof : Bool) (runner : Runner) : Runner :=
  if (eof || config.inputBuffer) && !config.singleStage then
    let message :=
      if (agents config.dataSourceAgent).isPseudo then runner.dataSource.profilingResults
      else
        match runner.operators.head? with
        | some op => op.profilingResults
        | none => ""
    runner.send config.dataSourceAgent ⟨0, eof, message⟩
  else runner

/-- `AgentDataSinkContext::finalize`.  The sink has an input buffer only if it is the source. -/
def finalizeSink (round : Nat) (endOfInput : Bool) (runner : Runner) : Runner :=
  let message :=
    match runner.operators.getLast? with
    | some op => op.profilingResults
    | none => runner.dataSink.profilingResults
  let size := if config.outputBuffer then env.outputSize round else 0
  if endOfInput || config.outputBuffer || (config.singleStage && config.inputBuffer) then
    runner.send config.dataSinkAgent ⟨size, endOfInput, message⟩
  else runner

/-- `SnapPipelineRunner::run`. -/
def runRound (round : Nat) (endOfInput : Bool) (runner : Runner) : Except Failure Runner := do
  let runner ← preRun (round == 0) runner
  let runner := postRun env round endOfInput runner
  let runner := finalizeSource agents config endOfInput runner
  return finalizeSink env config round endOfInput runner

/-- The rounds from the given one on. -/
def runRounds : Nat → Nat → Runner → Except Failure Runner
  | 0, round, runner => runRound agents env config round true runner
  | earlierRounds + 1, round, runner => do
    let runner ← runRound agents env config round false runner
    runRounds earlierRounds (round + 1) runner

/-- The loop that sends the responses; `currentOperator` is the rest of the operators. -/
def respond (currentOperator : List OperatorContext) :
    List AgentRef → Except Failure (List (AgentRef × ProcessingResponse))
  | [] => .ok []
  | agent :: rest =>
    if agent == config.dataSourceAgent || agent == config.dataSinkAgent then
      respond currentOperator rest
    else
      match currentOperator with
      | [] => .error .undefined
      | op :: currentOperator => do
        let messages ← respond currentOperator rest
        return (agent, ⟨0, true, op.profilingResults⟩) :: messages

/-- Whether the first agent is to be profiled, if it is a pseudo-operator. -/
def isProfilingEnabled (agent : OperatorAgent) : Except Failure Bool :=
  if DatagenOperator.isDatagenAgent agent then DatagenOperator.isProfilingEnabled agent
  else if MetalCatOperator.isMetalCatAgent agent then MetalCatOperator.isProfilingEnabled agent
  else return false

/-- `PipelineLoop::run`. -/
def pipelineLoop : Except Failure Runner := do
  let enabled ← isProfilingEnabled (agents config.dataSourceAgent)
  let runner ← runRounds agents env config env.earlierRounds 0
    { operators := config.operators
      dataSource := ⟨enabled && !config.operators.isEmpty, ""⟩
      dataSink := ⟨enabled && config.operators.isEmpty, ""⟩
      profileStreamIds := none
      results := ⟨0, 0, 0, 0, 0, 0, 0, 0, 0⟩
      sent := [] }
  let messages ← respond config runner.operators config.operatorAgents
  return { runner with sent := runner.sent ++ messages }

end Loop

/-- The agent gets one last response, with this text. -/
def Runner.Answers (runner : Runner) (agent : AgentRef) (text : String) : Prop :=
  ∃ size, (runner.sent.filter fun sent => sent.1 == agent && sent.2.eof) =
    [(agent, ⟨size, true, text⟩)]

/-- Every agent that stands for an operator gets the results of that operator. -/
def RightResults (agents : AgentRef → OperatorAgent) (config : ConfiguredPipeline)
    (runner : Runner) : Prop :=
  ∀ agent ∈ config.operatorAgents, (agents agent).isPseudo = false →
    ∃ op ∈ runner.operators, op.spec.id = (agents agent).operatorType ∧
      runner.Answers agent op.profilingResults

/-- Either the agents in between are those of the first operators, or no results are stored but in the
last operator. -/
def Aligned (agents : AgentRef → OperatorAgent) (config : ConfiguredPipeline) : Prop :=
  (agents config.dataSourceAgent).isPseudo = true ∨ config.operatorAgents.length ≤ 2 ∨
    ∀ op ∈ config.operators, op.profilingEnabled = true →
      ∀ op' ∈ config.operators.dropLast, op'.spec.streamID ≠ op.spec.streamID

variable {agents : AgentRef → OperatorAgent} {env : Environment} {config : ConfiguredPipeline}
  {operators operatorPosition ops : List OperatorContext} {op : OperatorContext}
  {runner runner' : Runner} {round : Nat}

/-! ## What is measured -/

theorem selectOperator_cons {rest : List OperatorContext}
    (selected : selectOperator (op :: rest) operators = .ok operatorPosition) :
    operatorPosition = op :: rest ∧ ∀ op' ∈ operators, op'.profilingEnabled = false := by
  induction operators with
  | nil =>
    cases selected
    exact ⟨rfl, fun _ isIn => absurd isIn List.not_mem_nil⟩
  | cons next operators ih =>
    rw [selectOperator] at selected
    split at selected
    · cases selected
    · rename_i disabled
      rcases ih selected with ⟨same, others⟩
      exact ⟨same, List.forall_mem_cons.mpr ⟨Bool.eq_false_iff.mpr disabled, others⟩⟩

/-- `preRun` finds the only operator for which profiling is enabled. -/
theorem selectOperator_nil (selected : selectOperator [] operators = .ok operatorPosition) :
    operatorPosition = [] ∧ (∀ op ∈ operators, op.profilingEnabled = false) ∨
      ∃ op rest, operatorPosition = op :: rest ∧ op ∈ operators ∧ op.profilingEnabled = true ∧
        ∀ op' ∈ operators, op'.profilingEnabled = true → op' = op := by
  induction operators with
  | nil =>
    cases selected
    exact Or.inl ⟨rfl, fun _ isIn => absurd isIn List.not_mem_nil⟩
  | cons next operators ih =>
    rw [selectOperator] at selected
    split at selected
    · rename_i enabled
      rcases selectOperator_cons selected with ⟨same, others⟩
      refine Or.inr ⟨next, operators, same, List.mem_cons_self, enabled, ?_⟩
      intro op isIn enabled'
      rcases List.mem_cons.mp isIn with rfl | isIn
      · rfl
      · rw [others op isIn] at enabled'
        cases enabled'
    · rename_i disabled
      rcases ih selected with ⟨empty, none⟩ | ⟨op, rest, same, isIn, enabled, only⟩
      · exact Or.inl ⟨empty, List.forall_mem_cons.mpr ⟨Bool.eq_false_iff.mpr disabled, none⟩⟩
      · refine Or.inr ⟨op, rest, same, List.mem_cons_of_mem _ isIn, enabled, ?_⟩
        intro op' isIn' enabled'
        rcases List.mem_cons.mp isIn' with rfl | isIn'
        · exact absurd enabled' disabled
        · exact only op' isIn' enabled'

/-- The operators after a run: at most one of them has got results. -/
inductive Outcome (operators : List OperatorContext) : List OperatorContext → Prop
  | unchanged (disabled : ∀ op ∈ operators, op.profilingEnabled = false) :
      Outcome operators operators
  | stored {op : OperatorContext} {text : String} (isIn : op ∈ operators)
      (enabled : op.profilingEnabled = true)
      (only : ∀ op' ∈ operators, op'.profilingEnabled = true → op' = op) (nonempty : text ≠ "") :
      Outcome operators (setProfilingResults op.spec.streamID text operators)

/-- The streams are those that `preRun` selects. -/
structure Selected (runner : Runner) (operatorPosition : List OperatorContext) : Prop where
  position : selectOperator [] runner.operators = .ok operatorPosition
  single : [!operatorPosition.isEmpty, runner.dataSource.profilingEnabled,
    runner.dataSink.profilingEnabled].count true ≤ 1
  streams : runner.profileStreamIds =
    selectStreams operatorPosition runner.operators runner.dataSource runner.dataSink

/-- `preRun` leaves everything as it is but the streams. -/
theorem preRun_spec (ready : round = 0 ∨ ∃ operatorPosition, Selected runner operatorPosition)
    (returned : preRun (round == 0) runner = .ok runner') :
    (∃ operatorPosition, Selected runner' operatorPosition) ∧
      runner' = { runner with profileStreamIds := runner'.profileStreamIds } := by
  rw [preRun] at returned
  split at returned
  · rcases Interrupt.bind_eq_ok returned with ⟨operatorPosition, position, returned⟩
    dsimp only at returned
    split at returned
    · cases returned
    · rename_i single
      cases returned
      exact ⟨⟨operatorPosition, position, Nat.not_lt.mp single, rfl⟩, rfl⟩
  · rename_i later
    cases returned
    refine ⟨ready.resolve_left ?_, rfl⟩
    rintro rfl
    exact later rfl

/-- The results have at least their headings. -/
theorem formatProfilingResults_ne (env : Environment) (results : ProfilingResults)
    (dataSource dataSink : Bool) : formatProfilingResults env results dataSource dataSink ≠ "" := by
  unfold formatProfilingResults
  intro empty
  have headings := (String.append_eq_empty_iff.mp (String.append_eq_empty_iff.mp empty).1).1
  simp at headings

/-- With an operator selected, neither the source nor the sink is. -/
theorem Selected.operator_only {rest : List OperatorContext} (selected : Selected runner (op :: rest)) :
    runner.dataSource.profilingEnabled = false ∧ runner.dataSink.profilingEnabled = false := by
  have single : (true :: [runner.dataSource.profilingEnabled, runner.dataSink.profilingEnabled]).count
      true ≤ 1 := selected.single
  rcases Bool.eq_false_or_eq_true runner.dataSource.profilingEnabled with dataSource | dataSource <;>
    rcases Bool.eq_false_or_eq_true runner.dataSink.profilingEnabled with dataSink | dataSink <;>
    rw [dataSource, dataSink] at single
  · exact absurd single (by decide)
  · exact absurd single (by decide)
  · exact absurd single (by decide)
  · exact ⟨dataSource, dataSink⟩

/-- In the last round the results are stored. -/
theorem postRun_outcome (env : Environment) (round : Nat)
    (selected : Selected runner operatorPosition) :
    Outcome runner.operators (postRun env round true runner).operators := by
  rcases selectOperator_nil selected.position with
    ⟨rfl, disabled⟩ | ⟨op, rest, rfl, isIn, enabled, only⟩
  · have unchanged : (postRun env round true runner).operators = runner.operators := by
      rw [postRun]
      split
      · rfl
      · rename_i ids streams
        dsimp only
        rw [if_pos rfl]
        split_ifs with dataSource dataSink
        · rfl
        · rfl
        · rw [selected.streams] at streams
          unfold selectStreams at streams
          rw [if_neg dataSink, if_neg dataSource] at streams
          cases streams
    rw [unchanged]
    exact .unchanged disabled
  · rcases selected.operator_only with ⟨noSource, noSink⟩
    have streams : ∃ next, runner.profileStreamIds = some (op.spec.streamID, next) := by
      rw [selected.streams]
      unfold selectStreams
      rw [noSink, noSource]
      cases rest with
      | nil => exact ⟨_, rfl⟩
      | cons next rest => exact ⟨_, rfl⟩
    rcases streams with ⟨next, streams⟩
    have stored : (postRun env round true runner).operators = setProfilingResults op.spec.streamID
        (formatProfilingResults env (runner.results.add (env.perfmonCounters round)) false false)
        runner.operators := by
      rw [postRun, streams]
      dsimp only
      rw [if_pos rfl, noSource, noSink]
      rfl
    rw [stored]
    exact .stored isIn enabled only (formatProfilingResults_ne _ _ _ _)

/-! ## The last messages -/

/-- The last responses among the messages. -/
def lastOnes (sent : List (AgentRef × ProcessingResponse)) : List (AgentRef × ProcessingResponse) :=
  sent.filter fun message => message.2.eof

/-- What the source context writes to its agent. -/
def sourceText (agents : AgentRef → OperatorAgent) (config : ConfiguredPipeline) (runner : Runner) :
    String :=
  if (agents config.dataSourceAgent).isPseudo then runner.dataSource.profilingResults
  else
    match runner.operators.head? with
    | some op => op.profilingResults
    | none => ""

/-- What the sink context writes to its agent. -/
def sinkText (runner : Runner) : String :=
  match runner.operators.getLast? with
  | some op => op.profilingResults
  | none => runner.dataSink.profilingResults

/-- The contexts only send messages; in the last round, the source a last one if it is not the sink. -/
theorem finalizeSource_spec (eof : Bool) (runner : Runner) :
    ∃ messages, finalizeSource agents config eof runner =
        { runner with sent := runner.sent ++ messages } ∧
      lastOnes messages = if eof && !config.singleStage then
        [(config.dataSourceAgent, ⟨0, true, sourceText agents config runner⟩)] else [] := by
  rw [finalizeSource]
  split
  · rename_i sends
    refine ⟨_, rfl, ?_⟩
    rw [Bool.and_eq_true] at sends
    rw [sends.2, Bool.and_true]
    cases eof <;> rfl
  · rename_i silent
    refine ⟨[], by rw [List.append_nil], ?_⟩
    rw [if_neg]
    · rfl
    · intro last
      rw [Bool.and_eq_true] at last
      rw [last.1, last.2] at silent
      exact silent rfl

theorem finalizeSink_spec (eof : Bool) (runner : Runner) :
    ∃ messages size, finalizeSink env config round eof runner =
        { runner with sent := runner.sent ++ messages } ∧
      lastOnes messages = if eof then [(config.dataSinkAgent, ⟨size, true, sinkText runner⟩)]
        else [] := by
  rw [finalizeSink]
  split
  · refine ⟨_, if config.outputBuffer then env.outputSize round else 0, rfl, ?_⟩
    cases eof <;> rfl
  · rename_i silent
    refine ⟨[], 0, by rw [List.append_nil], ?_⟩
    rw [if_neg]
    · rfl
    · intro last
      rw [last] at silent
      exact silent rfl

theorem lastOnes_append (sent sent' : List (AgentRef × ProcessingResponse)) :
    lastOnes (sent ++ sent') = lastOnes sent ++ lastOnes sent' := List.filter_append _ _

/-- `postRun` stores results only in the last round. -/
theorem postRun_false (runner : Runner) :
    ∃ results, postRun env round false runner = { runner with results } := by
  rw [postRun]
  split
  · exact ⟨runner.results, rfl⟩
  · exact ⟨_, rfl⟩

theorem postRun_sent (finalize : Bool) (runner : Runner) :
    (postRun env round finalize runner).sent = runner.sent := by
  rw [postRun]
  split
  · rfl
  · dsimp only
    split_ifs <;> rfl

/-- A round before the last one. -/
theorem runRound_false (ready : round = 0 ∨ ∃ operatorPosition, Selected runner operatorPosition)
    (returned : runRound agents env config round false runner = .ok runner') :
    (∃ operatorPosition, Selected runner' operatorPosition) ∧ runner'.operators = runner.operators ∧
      lastOnes runner'.sent = lastOnes runner.sent := by
  rcases Interrupt.bind_eq_ok returned with ⟨runner₁, started, returned⟩
  rcases preRun_spec ready started with ⟨⟨operatorPosition, selected⟩, frame⟩
  rcases @postRun_false env round runner₁ with ⟨results, measured⟩
  rcases @finalizeSource_spec agents config false (postRun env round false runner₁) with
    ⟨messages, sourced, noLast⟩
  rcases @finalizeSink_spec env config round false
    (finalizeSource agents config false (postRun env round false runner₁)) with
    ⟨messages', size, sunk, noLast'⟩
  cases returned
  rw [sunk, sourced, measured]
  refine ⟨⟨operatorPosition, selected.position, selected.single, selected.streams⟩, ?_, ?_⟩
  · rw [frame]
  · rw [lastOnes_append, lastOnes_append, noLast, noLast', frame]
    exact (List.append_nil _).trans (List.append_nil _)

/-- The last round. -/
theorem runRound_true (ready : round = 0 ∨ ∃ operatorPosition, Selected runner operatorPosition)
    (returned : runRound agents env config round true runner = .ok runner') :
    Outcome runner.operators runner'.operators ∧ ∃ size, lastOnes runner'.sent =
      lastOnes runner.sent ++
        (if config.singleStage then []
          else [(config.dataSourceAgent, ⟨0, true, sourceText agents config runner'⟩)]) ++
        [(config.dataSinkAgent, ⟨size, true, sinkText runner'⟩)] := by
  rcases Interrupt.bind_eq_ok returned with ⟨runner₁, started, returned⟩
  rcases preRun_spec ready started with ⟨⟨operatorPosition, selected⟩, frame⟩
  have outcome := postRun_outcome env round selected
  have sent := @postRun_sent env round true runner₁
  generalize postRun env round true runner₁ = runner₂ at outcome sent returned
  rcases @finalizeSource_spec agents config true runner₂ with ⟨messages, sourced, source⟩
  rcases @finalizeSink_spec env config round true (finalizeSource agents config true runner₂) with
    ⟨messages', size, sunk, sink⟩
  cases returned
  rw [sunk, sourced]
  rw [sourced] at sink
  have sameOperators : runner₁.operators = runner.operators := by rw [frame]
  have sameSent : runner₁.sent = runner.sent := by rw [frame]
  refine ⟨sameOperators ▸ outcome, size, ?_⟩
  rw [lastOnes_append, lastOnes_append, source, sink, sent, sameSent]
  cases config.singleStage <;> rfl

/-- All rounds. -/
theorem runRounds_spec {earlierRounds : Nat}
    (ready : round = 0 ∨ ∃ operatorPosition, Selected runner operatorPosition)
    (returned : runRounds agents env config earlierRounds round runner = .ok runner') :
    Outcome runner.operators runner'.operators ∧ ∃ size, lastOnes runner'.sent =
      lastOnes runner.sent ++
        (if config.singleStage then []
          else [(config.dataSourceAgent, ⟨0, true, sourceText agents config runner'⟩)]) ++
        [(config.dataSinkAgent, ⟨size, true, sinkText runner'⟩)] := by
  induction earlierRounds generalizing round runner with
  | zero => exact runRound_true ready returned
  | succ earlierRounds ih =>
    rcases Interrupt.bind_eq_ok returned with ⟨runner₁, first, rest⟩
    rcases runRound_false ready first with ⟨selected, operators, sent⟩
    rw [← operators, ← sent]
    exact ih (Or.inr selected) rest

/-- The response of `PipelineLoop::run` to an agent. -/
def response (agent : AgentRef) (op : OperatorContext) : AgentRef × ProcessingResponse :=
  (agent, ⟨0, true, op.profilingResults⟩)

/-- The agents that neither context answers. -/
def ConfiguredPipeline.idle (config : ConfiguredPipeline) (agent : AgentRef) : Bool :=
  !(agent == config.dataSourceAgent || agent == config.dataSinkAgent)

/-- The idle agents are answered in order, from the first operator on. -/
theorem respond_spec {l : List AgentRef} {messages : List (AgentRef × ProcessingResponse)}
    (returned : respond config ops l = .ok messages) :
    messages = List.zipWith response (l.filter config.idle) ops ∧
      (l.filter config.idle).length ≤ ops.length := by
  induction l generalizing ops messages with
  | nil =>
    cases returned
    exact ⟨rfl, Nat.zero_le _⟩
  | cons agent rest ih =>
    unfold respond at returned
    split at returned
    · rename_i answered
      rw [List.filter_cons_of_neg]
      · exact ih returned
      · rw [ConfiguredPipeline.idle, answered]
        exact Bool.false_ne_true
    · rename_i idle
      rw [List.filter_cons_of_pos]
      · cases ops with
        | nil => cases returned
        | cons op ops =>
          rcases Interrupt.bind_eq_ok returned with ⟨later, responded, same⟩
          cases same
          rcases ih responded with ⟨rfl, enough⟩
          exact ⟨rfl, Nat.succ_le_succ enough⟩
      · rw [ConfiguredPipeline.idle, Bool.eq_false_iff.mpr idle]
        rfl

/-- What a completed run has sent. -/
theorem pipelineLoop_spec {final : Runner} (completed : pipelineLoop agents env config = .ok final) :
    Outcome config.operators final.operators ∧
      (config.operatorAgents.filter config.idle).length ≤ final.operators.length ∧
      ∃ size, lastOnes final.sent =
        (if config.singleStage then []
          else [(config.dataSourceAgent, ⟨0, true, sourceText agents config final⟩)]) ++
        [(config.dataSinkAgent, ⟨size, true, sinkText final⟩)] ++
        List.zipWith response (config.operatorAgents.filter config.idle) final.operators := by
  rcases Interrupt.bind_eq_ok completed with ⟨enabled, -, completed⟩
  rcases Interrupt.bind_eq_ok completed with ⟨runner, rounds, completed⟩
  rcases Interrupt.bind_eq_ok completed with ⟨messages, responded, same⟩
  cases same
  rcases runRounds_spec (Or.inl rfl) rounds with ⟨outcome, size, sent⟩
  rcases respond_spec responded with ⟨rfl, enough⟩
  refine ⟨outcome, enough, size, ?_⟩
  have all : lastOnes (List.zipWith response (config.operatorAgents.filter config.idle)
      runner.operators) = List.zipWith response (config.operatorAgents.filter config.idle)
        runner.operators := by
    refine List.filter_eq_self.mpr ?_
    intro message isIn
    rcases List.mem_iff_getElem.mp isIn with ⟨i, _, rfl⟩
    rw [List.getElem_zipWith]
    rfl
  dsimp only
  rw [lastOnes_append, sent, all]
  rfl

/-! ## Who gets what -/

/-- The agent gets the results of this operator, and no others. -/
def Runner.Gets (runner : Runner) (agent : AgentRef) (op : OperatorContext) : Prop :=
  ∀ text, runner.Answers agent text ↔ text = op.profilingResults

theorem answers_iff {agent : AgentRef} {text : String} :
    runner.Answers agent text ↔ ∃ size, ((lastOnes runner.sent).filter fun sent => sent.1 == agent) =
      [(agent, ⟨size, true, text⟩)] := by
  rw [Runner.Answers, lastOnes, List.filter_filter]

/-- The messages to one agent. -/
theorem filter_own (agent : AgentRef) (message : ProcessingResponse)
    (rest : List (AgentRef × ProcessingResponse)) :
    (((agent, message) :: rest).filter fun sent => sent.1 == agent) =
      (agent, message) :: rest.filter fun sent => sent.1 == agent :=
  List.filter_cons_of_pos (beq_self_eq_true agent)

theorem filter_other {agent other : AgentRef} (apart : other ≠ agent) (message : ProcessingResponse)
    (rest : List (AgentRef × ProcessingResponse)) :
    (((other, message) :: rest).filter fun sent => sent.1 == agent) =
      rest.filter fun sent => sent.1 == agent :=
  List.filter_cons_of_neg (Bool.eq_false_iff.mp (beq_eq_false_iff_ne.mpr apart))

theorem gets_of_filter {agent : AgentRef} (size : Nat)
    (one : ((lastOnes runner.sent).filter fun sent => sent.1 == agent) =
      [(agent, ⟨size, true, op.profilingResults⟩)]) : runner.Gets agent op := by
  intro text
  rw [answers_iff, one]
  constructor
  · rintro ⟨size', same⟩
    cases same
    rfl
  · rintro rfl
    exact ⟨size, rfl⟩

theorem filter_zipWith_response {l : List AgentRef} {agent : AgentRef} (absent : agent ∉ l)
    (ops : List OperatorContext) :
    ((List.zipWith response l ops).filter fun sent => sent.1 == agent) = [] := by
  refine List.filter_eq_nil_iff.mpr ?_
  intro message isIn same
  rcases List.mem_iff_getElem.mp isIn with ⟨i, inside, rfl⟩
  rw [List.getElem_zipWith] at same
  exact absent (beq_iff_eq.mp same ▸ List.getElem_mem _)

/-- Agents that are answered in order get the results of the operators in the same order. -/
theorem filter_responses {l : List AgentRef} {messages : List (AgentRef × ProcessingResponse)}
    (nodup : l.Nodup) (enough : l.length ≤ ops.length)
    (others : ∀ agent ∈ l, (messages.filter fun sent => sent.1 == agent) = []) :
    List.Forall₂ (fun agent op =>
      ((messages ++ List.zipWith response l ops).filter fun sent => sent.1 == agent) =
        [response agent op]) l (ops.take l.length) := by
  induction l generalizing ops messages with
  | nil => exact .nil
  | cons agent l ih =>
    cases ops with
    | nil => cases enough
    | cons op ops =>
      rw [List.nodup_cons] at nodup
      rw [List.forall_mem_cons] at others
      refine .cons ?_ ?_
      · rw [List.filter_append, others.1, List.zipWith_cons_cons, response, filter_own,
          filter_zipWith_response nodup.1, List.nil_append]
      · rw [List.zipWith_cons_cons, List.append_cons]
        refine ih nodup.2 (Nat.le_of_succ_le_succ enough) ?_
        intro agent' isIn
        have apart : agent ≠ agent' := fun same => nodup.1 (same ▸ isIn)
        rw [List.filter_append, others.2 agent' isIn, List.nil_append, response, filter_other apart,
          List.filter_nil]

section Run

variable {standing mid : List AgentRef} {final : Runner}

theorem Accepted.nodup (accepted : Accepted agents config standing) : config.operatorAgents.Nodup := by
  have nodup : standing.Nodup := by
    refine List.Nodup.of_map (fun agent => (agents agent).operatorType) ?_
    rw [← accepted.types]
    exact accepted.distinct
  rcases accepted.inOrder with same | ⟨first, pseudo, same⟩
  · rw [same]
    exact nodup
  · rw [same]
    refine List.nodup_cons.mpr ⟨?_, nodup⟩
    intro isIn
    rw [accepted.ordinary first isIn] at pseudo
    cases pseudo

theorem Accepted.length (accepted : Accepted agents config standing) :
    config.operators.length = standing.length := by
  have lengths := congrArg List.length accepted.types
  rwa [List.length_map, List.length_map] at lengths

/-- A pipeline has one agent, or a first and a last one. -/
theorem Accepted.shape (accepted : Accepted agents config standing) :
    config.operatorAgents = [config.dataSourceAgent] ∧
        config.dataSinkAgent = config.dataSourceAgent ∨
      ∃ mid, config.operatorAgents = config.dataSourceAgent :: (mid ++ [config.dataSinkAgent]) := by
  have first := accepted.source
  have last := accepted.sink
  cases all : config.operatorAgents with
  | nil =>
    rw [all] at first
    cases first
  | cons source rest =>
    rw [all] at first last
    cases first
    rcases List.eq_nil_or_concat' rest with rfl | ⟨mid, sink, rfl⟩
    · exact Or.inl ⟨rfl, (Option.some.inj last).symm⟩
    · rw [← List.cons_append, List.getLast?_concat] at last
      cases last
      exact Or.inr ⟨mid, rfl⟩

/-- The agents in between are answered by `PipelineLoop::run`. -/
theorem filter_idle
    (nodup : (config.dataSourceAgent :: (mid ++ [config.dataSinkAgent])).Nodup) :
    (config.dataSourceAgent :: (mid ++ [config.dataSinkAgent])).filter config.idle = mid := by
  rw [List.nodup_cons, List.nodup_append] at nodup
  have sourceAnswered : config.idle config.dataSourceAgent = false := by
    rw [ConfiguredPipeline.idle, beq_self_eq_true]
    rfl
  have sinkAnswered : config.idle config.dataSinkAgent = false := by
    rw [ConfiguredPipeline.idle, beq_self_eq_true, Bool.or_true]
    rfl
  rw [List.filter_cons_of_neg (Bool.eq_false_iff.mp sourceAnswered), List.filter_append,
    List.filter_cons_of_neg (Bool.eq_false_iff.mp sinkAnswered), List.filter_nil, List.append_nil]
  refine List.filter_eq_self.mpr ?_
  intro agent isIn
  have notSource : (agent == config.dataSourceAgent) = false := by
    refine beq_eq_false_iff_ne.mpr ?_
    rintro rfl
    exact nodup.1 (List.mem_append_left _ isIn)
  have notSink : (agent == config.dataSinkAgent) = false :=
    beq_eq_false_iff_ne.mpr (nodup.2.2.2 agent isIn _ (List.mem_singleton_self _))
  rw [ConfiguredPipeline.idle, notSource, notSink]
  rfl

/-- A pipeline of one agent: the sink context answers it. -/
theorem gets_of_single (completed : pipelineLoop agents env config = .ok final)
    (single : config.operatorAgents = [config.dataSourceAgent])
    (same : config.dataSinkAgent = config.dataSourceAgent)
    (text : sinkText final = op.profilingResults) : final.Gets config.dataSourceAgent op := by
  rcases pipelineLoop_spec completed with ⟨-, -, size, sent⟩
  have oneStage : config.singleStage = true := by
    rw [ConfiguredPipeline.singleStage, same]
    exact beq_self_eq_true _
  have noIdle : config.operatorAgents.filter config.idle = [] := by
    rw [single, List.filter_cons_of_neg, List.filter_nil]
    rw [ConfiguredPipeline.idle, beq_self_eq_true]
    exact Bool.false_ne_true
  refine gets_of_filter size ?_
  rw [sent, oneStage, noIdle, same, text, if_pos rfl, List.nil_append, List.zipWith_nil_left,
    List.append_nil, filter_own, List.filter_nil]

/-- A pipeline of several agents. -/
theorem gets_of_between (completed : pipelineLoop agents env config = .ok final)
    (all : config.operatorAgents = config.dataSourceAgent :: (mid ++ [config.dataSinkAgent]))
    (nodup : config.operatorAgents.Nodup) :
    (∀ op : OperatorContext, sourceText agents config final = op.profilingResults →
      final.Gets config.dataSourceAgent op) ∧
    List.Forall₂ final.Gets mid (final.operators.take mid.length) ∧
    (∀ op : OperatorContext, sinkText final = op.profilingResults →
      final.Gets config.dataSinkAgent op) := by
  rcases pipelineLoop_spec completed with ⟨-, enough, size, sent⟩
  rw [all] at nodup enough sent
  rw [filter_idle nodup] at enough sent
  rw [List.nodup_cons, List.nodup_append] at nodup
  rcases nodup with ⟨fresh, nodup, -, apart⟩
  have sourceNotSink : config.dataSourceAgent ≠ config.dataSinkAgent := by
    intro same
    exact fresh (List.mem_append_right _ (same ▸ List.mem_singleton_self _))
  have sourceNotIdle : config.dataSourceAgent ∉ mid := fun isIn =>
    fresh (List.mem_append_left _ isIn)
  have sinkNotIdle : config.dataSinkAgent ∉ mid := fun isIn =>
    apart _ isIn _ (List.mem_singleton_self _) rfl
  have manyStages : config.singleStage = false := beq_eq_false_iff_ne.mpr sourceNotSink
  rw [manyStages, if_neg Bool.false_ne_true] at sent
  refine ⟨?_, ?_, ?_⟩
  · intro op text
    refine gets_of_filter 0 ?_
    rw [sent, List.filter_append, filter_zipWith_response sourceNotIdle, List.append_nil, text,
      List.singleton_append, filter_own, filter_other sourceNotSink.symm, List.filter_nil]
  · have responses := filter_responses nodup enough (?_ : ∀ agent ∈ mid,
      (([(config.dataSourceAgent, ⟨0, true, sourceText agents config final⟩)] ++
        [(config.dataSinkAgent, ⟨size, true, sinkText final⟩)] :
          List (AgentRef × ProcessingResponse)).filter fun sent => sent.1 == agent) = [])
    · refine responses.imp ?_
      intro agent op one
      refine gets_of_filter 0 ?_
      rw [sent]
      exact one
    · intro agent isIn
      have notSource : config.dataSourceAgent ≠ agent := fun same => sourceNotIdle (same ▸ isIn)
      have notSink : config.dataSinkAgent ≠ agent := fun same => sinkNotIdle (same ▸ isIn)
      rw [List.singleton_append, filter_other notSource, filter_other notSink, List.filter_nil]
  · intro op text
    refine gets_of_filter size ?_
    rw [sent, List.filter_append, filter_zipWith_response sinkNotIdle, List.append_nil, text,
      List.singleton_append, filter_other sourceNotSink, filter_own, List.filter_nil]

/-! ## Whose results they are -/

theorem exists_of_forall₂ {α β : Type} {R : α → β → Prop} {l : List α} {m : List β}
    (both : List.Forall₂ R l m) {a : α} (isIn : a ∈ l) : ∃ b ∈ m, R a b := by
  induction both with
  | nil => cases isIn
  | cons related _ ih =>
    rcases List.mem_cons.mp isIn with rfl | isIn
    · exact ⟨_, List.mem_cons_self, related⟩
    · rcases ih isIn with ⟨b, isIn', related'⟩
      exact ⟨b, List.mem_cons_of_mem _ isIn', related'⟩

/-- All elements of a list are equal if it is its own successor. -/
theorem dropLast_eq_tail_iff {α : Type} {l : List α} :
    l.dropLast = l.tail ↔ ∀ x ∈ l, ∀ y ∈ l, x = y := by
  induction l with
  | nil => exact ⟨fun _ x isIn => absurd isIn List.not_mem_nil, fun _ => rfl⟩
  | cons x l ih =>
    cases l with
    | nil =>
      refine ⟨fun _ a isA b isB => ?_, fun _ => rfl⟩
      rw [List.mem_singleton.mp isA, List.mem_singleton.mp isB]
    | cons y l =>
      rw [List.dropLast_cons_cons, List.tail_cons, List.cons.injEq]
      rw [List.tail_cons] at ih
      rw [ih]
      constructor
      · rintro ⟨rfl, equal⟩
        intro a isA b isB
        refine equal a ?_ b ?_
        · exact (List.mem_cons.mp isA).elim (· ▸ List.mem_cons_self) id
        · exact (List.mem_cons.mp isB).elim (· ▸ List.mem_cons_self) id
      · intro equal
        refine ⟨equal x List.mem_cons_self y (List.mem_cons_of_mem _ List.mem_cons_self), ?_⟩
        intro a isA b isB
        exact equal a (List.mem_cons_of_mem _ isA) b (List.mem_cons_of_mem _ isB)

/-- The operators have the same results. -/
def Uniform (ops : List OperatorContext) : Prop :=
  ∀ op ∈ ops, ∀ op' ∈ ops, op.profilingResults = op'.profilingResults

/-- Moving on by one operator only makes no difference if all have the same results. -/
theorem shifted_iff_uniform {first last : OperatorContext} {between : List OperatorContext} :
    ((first :: (between ++ [last])).take between.length).map OperatorContext.profilingResults =
        between.map OperatorContext.profilingResults ↔
      Uniform (first :: (between ++ [last])).dropLast := by
  have init : (first :: (between ++ [last])).dropLast = first :: between := by
    rw [← List.cons_append, List.dropLast_concat]
  have shifted : (first :: (between ++ [last])).take between.length = (first :: between).dropLast := by
    rw [← List.cons_append, List.take_append_of_le_length (Nat.le_succ _), List.dropLast_eq_take]
    rfl
  have equal := @dropLast_eq_tail_iff String
    ((first :: between).map OperatorContext.profilingResults)
  rw [← List.map_dropLast, List.map_cons, List.tail_cons, ← List.map_cons] at equal
  rw [shifted, init, equal]
  constructor
  · intro same op isIn op' isIn'
    exact same _ (List.mem_map_of_mem isIn) _ (List.mem_map_of_mem isIn')
  · intro uniform x isX y isY
    rcases List.mem_map.mp isX with ⟨op, isIn, rfl⟩
    rcases List.mem_map.mp isY with ⟨op', isIn', rfl⟩
    exact uniform op isIn op' isIn'

/-- A list with a first and a last element. -/
theorem split_ends {α β : Type} {l : List α} {x z : β} {m : List β}
    (count : l.length = (x :: (m ++ [z])).length) :
    ∃ first between last, l = first :: (between ++ [last]) ∧ m.length = between.length := by
  cases l with
  | nil => cases count
  | cons first rest =>
    rw [List.length_cons, List.length_cons, List.length_append] at count
    rcases List.eq_nil_or_concat' rest with rfl | ⟨between, last, rfl⟩
    · cases count
    · rw [List.length_append] at count
      exact ⟨first, between, last, rfl, (Nat.succ.inj (Nat.succ.inj count)).symm⟩

/-- The operators whose results the agents get.  If the first agent stands for an operator, those in
between get the results of the operator before theirs. -/
theorem exists_given (accepted : Accepted agents config standing)
    (count : final.operators.length = standing.length)
    (completed : pipelineLoop agents env config = .ok final) :
    ∃ given : List OperatorContext, List.Forall₂ final.Gets standing given ∧
      (given.map OperatorContext.profilingResults =
          final.operators.map OperatorContext.profilingResults ↔
        (agents config.dataSourceAgent).isPseudo = true ∨ Uniform final.operators.dropLast) := by
  rcases accepted.shape with ⟨single, same⟩ | ⟨mid, all⟩
  · rcases accepted.inOrder with inOrder | ⟨first, pseudo, inOrder⟩
    · rw [single] at inOrder
      subst inOrder
      rcases List.length_eq_one_iff.mp count with ⟨op, operators⟩
      refine ⟨[op], .cons (gets_of_single completed single same ?_) .nil, ?_⟩
      · rw [sinkText, operators]
        rfl
      · rw [operators]
        refine iff_of_true rfl (Or.inr ?_)
        intro op isIn
        cases isIn
    · rw [single, List.cons.injEq] at inOrder
      rcases inOrder with ⟨rfl, rfl⟩
      rw [List.length_nil, List.length_eq_zero_iff] at count
      exact ⟨[], .nil, by rw [count]; exact iff_of_true rfl (Or.inl pseudo)⟩
  · rcases gets_of_between completed all accepted.nodup with ⟨source, between, sink⟩
    rcases accepted.inOrder with inOrder | ⟨first, pseudo, inOrder⟩
    · -- The first agent stands for an operator.
      rw [all] at inOrder
      subst inOrder
      have ordinary := accepted.ordinary config.dataSourceAgent List.mem_cons_self
      rcases split_ends count with ⟨opFirst, opsBetween, opLast, operators, length⟩
      refine ⟨opFirst :: (final.operators.take mid.length ++ [opLast]), .cons (source _ ?_)
        (List.rel_append between (.cons (sink _ ?_) .nil)), ?_⟩
      · rw [sourceText, ordinary, operators]
        rfl
      · rw [sinkText, operators, ← List.cons_append, List.getLast?_concat]
      · rw [ordinary, operators, ← shifted_iff_uniform, length, List.map_cons, List.map_cons,
          List.map_append, List.map_append, List.cons.injEq]
        constructor
        · exact fun same => Or.inr (List.append_cancel_right same.2)
        · intro same
          exact ⟨rfl, congrArg (· ++ _) (same.resolve_left Bool.false_ne_true)⟩
    · rw [all, List.cons.injEq] at inOrder
      rcases inOrder with ⟨rfl, rfl⟩
      rcases List.eq_nil_or_concat' final.operators with none | ⟨opsBetween, opLast, operators⟩
      · rw [none, List.length_append] at count
        cases count
      · have length : opsBetween.length = mid.length := by
          rw [operators, List.length_append, List.length_append] at count
          exact Nat.succ.inj count
        have front : final.operators.take mid.length = opsBetween := by
          rw [operators, List.take_left' length]
        refine ⟨final.operators, ?_, iff_of_true rfl (Or.inl pseudo)⟩
        rw [front] at between
        rw [operators]
        refine List.rel_append between (.cons (sink _ ?_) .nil)
        rw [sinkText, operators, List.getLast?_concat]

/-- Each agent is to get the results of the operator at its place. -/
theorem rightResults_iff (accepted : Accepted agents config standing)
    (types : (final.operators.map fun op => op.spec.id) =
      standing.map fun agent => (agents agent).operatorType) :
    RightResults agents config final ↔
      List.Forall₂ (fun agent op => final.Answers agent op.profilingResults) standing
        final.operators := by
  have aligned : List.Forall₂ (fun agent op => op.spec.id = (agents agent).operatorType) standing
      final.operators := by
    have equal : List.Forall₂ Eq (standing.map fun agent => (agents agent).operatorType)
        (final.operators.map fun op => op.spec.id) := by
      rw [types]
      exact List.forall₂_refl _
    rw [List.forall₂_map_left_iff, List.forall₂_map_right_iff] at equal
    exact equal.imp fun _ _ same => same.symm
  have distinct : (final.operators.map fun op => op.spec.id).Nodup := by
    rw [types, ← accepted.types]
    exact accepted.distinct
  have isStanding : ∀ agent, agent ∈ standing ↔
      agent ∈ config.operatorAgents ∧ (agents agent).isPseudo = false := by
    intro agent
    rcases accepted.inOrder with same | ⟨first, pseudo, same⟩
    · rw [same]
      exact ⟨fun isIn => ⟨isIn, accepted.ordinary agent isIn⟩, And.left⟩
    · rw [same]
      refine ⟨fun isIn => ⟨List.mem_cons_of_mem _ isIn, accepted.ordinary agent isIn⟩, ?_⟩
      rintro ⟨isIn, ordinary⟩
      rcases List.mem_cons.mp isIn with rfl | isIn
      · rw [pseudo] at ordinary
        cases ordinary
      · exact isIn
  constructor
  · intro right
    refine List.forall₂_iff_zip.mpr ⟨aligned.length_eq, ?_⟩
    intro agent op isPair
    rcases List.of_mem_zip isPair with ⟨isIn, isOp⟩
    rcases (isStanding agent).mp isIn with ⟨isAgent, ordinary⟩
    rcases right agent isAgent ordinary with ⟨own, isOwn, id, answers⟩
    have same : own = op := List.inj_on_of_nodup_map distinct isOwn isOp
      (id.trans (List.forall₂_zip aligned isPair).symm)
    exact same ▸ answers
  · intro answers agent isAgent ordinary
    have both := List.Forall₂.mp (fun agent op same answers => And.intro same answers) aligned answers
    rcases exists_of_forall₂ both ((isStanding agent).mpr ⟨isAgent, ordinary⟩) with
      ⟨op, isOp, id, answered⟩
    exact ⟨op, isOp, id, answered⟩

/-- Getting the results of some operators, the agents get the right ones if these are the same. -/
theorem answers_iff_map {given : List OperatorContext}
    (gets : List.Forall₂ final.Gets standing given) (count : ops.length = standing.length) :
    List.Forall₂ (fun agent op => final.Answers agent op.profilingResults) standing ops ↔
      given.map OperatorContext.profilingResults = ops.map OperatorContext.profilingResults := by
  induction gets generalizing ops with
  | nil =>
    rw [List.length_nil, List.length_eq_zero_iff] at count
    rw [count]
    exact iff_of_true .nil rfl
  | cons first _ ih =>
    cases ops with
    | nil => cases count
    | cons op ops =>
      rw [List.forall₂_cons, ih (Nat.succ.inj count), first, List.map_cons, List.map_cons,
        List.cons.injEq, eq_comm]

/-! ## Where the results are stored -/

variable {streamID : UInt8} {text : String}

theorem setProfilingResults_cons (op : OperatorContext) (ops : List OperatorContext) :
    setProfilingResults streamID text (op :: ops) =
      if op.spec.streamID = streamID then { op with profilingResults := text } :: ops
      else op :: setProfilingResults streamID text ops := rfl

theorem setProfilingResults_spec (streamID : UInt8) (text : String) (ops : List OperatorContext) :
    (setProfilingResults streamID text ops).map OperatorContext.spec = ops.map OperatorContext.spec := by
  induction ops with
  | nil => rfl
  | cons op ops ih =>
    rw [setProfilingResults]
    split
    · rfl
    · rw [List.map_cons, ih, List.map_cons]

theorem setProfilingResults_of_none (none : ∀ op ∈ ops, op.spec.streamID ≠ streamID) :
    setProfilingResults streamID text ops = ops := by
  induction ops with
  | nil => rfl
  | cons op ops ih =>
    rw [List.forall_mem_cons] at none
    rw [setProfilingResults, if_neg none.1, ih none.2]

theorem exists_of_setProfilingResults (text : String) (some : ∃ op ∈ ops, op.spec.streamID = streamID) :
    ∃ op ∈ setProfilingResults streamID text ops, op.profilingResults = text := by
  induction ops with
  | nil =>
    rcases some with ⟨op, isIn, -⟩
    cases isIn
  | cons op ops ih =>
    rw [setProfilingResults]
    split
    · exact ⟨_, List.mem_cons_self, rfl⟩
    · rename_i other
      rcases some with ⟨op', isIn, same⟩
      rcases List.mem_cons.mp isIn with rfl | isIn
      · exact absurd same other
      · rcases ih ⟨op', isIn, same⟩ with ⟨stored, isStored, results⟩
        exact ⟨stored, List.mem_cons_of_mem _ isStored, results⟩

theorem setProfilingResults_dropLast :
    (setProfilingResults streamID text ops).dropLast =
      setProfilingResults streamID text ops.dropLast := by
  induction ops with
  | nil => rfl
  | cons op ops ih =>
    cases ops with
    | nil =>
      rw [setProfilingResults]
      split <;> rfl
    | cons next ops =>
      have more : setProfilingResults streamID text (next :: ops) ≠ [] := by
        rw [setProfilingResults]
        split <;> exact List.cons_ne_nil _ _
      rw [List.dropLast_cons_cons, setProfilingResults_cons op (next :: ops),
        setProfilingResults_cons op (next :: ops).dropLast]
      split
      · rfl
      · rw [List.dropLast_cons_of_ne_nil more, ih]

/-- Two or more operators have the same results only if none of them has got any. -/
theorem uniform_setProfilingResults_iff (unset : ∀ op ∈ ops, op.profilingResults = "")
    (nonempty : text ≠ "") :
    Uniform (setProfilingResults streamID text ops) ↔
      ops.length ≤ 1 ∨ ∀ op ∈ ops, op.spec.streamID ≠ streamID := by
  constructor
  · intro uniform
    by_contra neither
    push Not at neither
    rcases neither with ⟨several, stored⟩
    cases ops with
    | nil => cases several
    | cons first rest =>
      cases rest with
      | nil => exact absurd several (Nat.lt_irrefl 1)
      | cons second rest =>
        rw [setProfilingResults] at uniform
        split at uniform
        · have same := uniform _ List.mem_cons_self second (List.mem_cons_of_mem _ List.mem_cons_self)
          exact nonempty (same.trans (unset second (List.mem_cons_of_mem _ List.mem_cons_self)))
        · rename_i other
          have later : ∃ op ∈ second :: rest, op.spec.streamID = streamID := by
            rcases stored with ⟨op, isIn, same⟩
            rcases List.mem_cons.mp isIn with rfl | isIn
            · exact absurd same other
            · exact ⟨op, isIn, same⟩
          rcases exists_of_setProfilingResults text later with ⟨op, isStored, results⟩
          have same := uniform op (List.mem_cons_of_mem _ isStored) first List.mem_cons_self
          exact nonempty (results.symm.trans (same.trans (unset first List.mem_cons_self)))
  · rintro (single | none)
    · have single' : (setProfilingResults streamID text ops).length ≤ 1 := by
        have length := congrArg List.length (setProfilingResults_spec streamID text ops)
        rw [List.length_map, List.length_map] at length
        rwa [length]
      generalize setProfilingResults streamID text ops = stored at single'
      intro op isIn op' isIn'
      rcases stored with _ | ⟨first, _ | ⟨second, stored⟩⟩
      · cases isIn
      · rw [List.mem_singleton.mp isIn, List.mem_singleton.mp isIn']
      · exact absurd single' (Nat.not_le.mpr (Nat.lt_of_lt_of_le Nat.one_lt_two (Nat.le_add_left 2 _)))
    · rw [setProfilingResults_of_none none]
      intro op isIn op' isIn'
      rw [unset op isIn, unset op' isIn']

theorem Outcome.types {operators' : List OperatorContext} (outcome : Outcome operators operators') :
    (operators'.map fun op => op.spec.id) = operators.map fun op => op.spec.id := by
  cases outcome with
  | unchanged => rfl
  | @stored op text =>
    have specs := congrArg (List.map OperatorSpecification.id)
      (setProfilingResults_spec op.spec.streamID text operators)
    rw [List.map_map, List.map_map] at specs
    exact specs

theorem Outcome.length {operators' : List OperatorContext} (outcome : Outcome operators operators') :
    operators'.length = operators.length := by
  have lengths := congrArg List.length outcome.types
  rwa [List.length_map, List.length_map] at lengths

/-- The operators but the last have the same results only if none of them has got any. -/
theorem Outcome.uniform_iff {operators' : List OperatorContext}
    (unset : ∀ op ∈ operators, op.profilingResults = "") (outcome : Outcome operators operators') :
    Uniform operators'.dropLast ↔ operators.length ≤ 2 ∨
      ∀ op ∈ operators, op.profilingEnabled = true →
        ∀ op' ∈ operators.dropLast, op'.spec.streamID ≠ op.spec.streamID := by
  have unset' : ∀ op ∈ operators.dropLast, op.profilingResults = "" :=
    fun op isIn => unset op (List.mem_of_mem_dropLast isIn)
  cases outcome with
  | unchanged disabled =>
    refine iff_of_true ?_ (Or.inr ?_)
    · intro op isIn op' isIn'
      rw [unset' op isIn, unset' op' isIn']
    · intro op isIn enabled
      rw [disabled op isIn] at enabled
      cases enabled
  | @stored op text isIn enabled only nonempty =>
    rw [setProfilingResults_dropLast, uniform_setProfilingResults_iff unset' nonempty,
      List.length_dropLast, Nat.sub_le_iff_le_add]
    refine or_congr_right ⟨?_, ?_⟩
    · intro none op' isIn' enabled'
      rw [only op' isIn' enabled']
      exact none
    · intro none
      exact none op isIn enabled

/-- When the run completes, every agent that stands for an operator has got the results of that
operator, provided that the operators and the agents in between are aligned. -/
theorem rightResults_iff_aligned {agents : AgentRef → OperatorAgent} {env : Environment}
    {builder : PipelineBuilder} {config : ConfiguredPipeline} {final : Runner}
    (configured : builder.configure agents = .ok config)
    (completed : pipelineLoop agents env config = .ok final) :
    RightResults agents config final ↔ Aligned agents config := by
  rcases builder.configure_accepted configured with ⟨-, standing, accepted⟩
  have outcome := (pipelineLoop_spec completed).1
  have types := outcome.types.trans accepted.types
  have count := outcome.length.trans accepted.length
  rcases exists_given accepted count completed with ⟨given, gets, same⟩
  rw [rightResults_iff accepted types, answers_iff_map gets count, same, Aligned]
  refine or_congr_right' ?_
  intro ordinary
  have all : config.operatorAgents.length = config.operators.length := by
    rcases accepted.inOrder with inOrder | ⟨first, pseudo, inOrder⟩
    · rw [inOrder, accepted.length]
    · have isFirst := accepted.source
      rw [inOrder] at isFirst
      cases isFirst
      exact absurd pseudo ordinary
  rw [all]
  exact outcome.uniform_iff accepted.unset

/-! ## Completion -/

/-- The exception of `preRun`. -/
def onlyOneOperator : Failure := .exception "Only one operator can be selected for profiling."

/-- The call returns or `preRun` throws. -/
def ReturnsUnlessSelected {α : Type} (result : Except Failure α) : Prop :=
  (∃ a, result = .ok a) ∨ result = .error onlyOneOperator

theorem ReturnsUnlessSelected.bind {α β : Type} {result : Except Failure α}
    {rest : α → Except Failure β} (first : ReturnsUnlessSelected result)
    (later : ∀ a, result = .ok a → ReturnsUnlessSelected (rest a)) :
    ReturnsUnlessSelected (result >>= rest) := by
  rcases first with ⟨a, rfl⟩ | rfl
  · exact later a rfl
  · exact Or.inr rfl

theorem selectOperator_returns :
    ReturnsUnlessSelected (selectOperator operatorPosition operators) := by
  induction operators generalizing operatorPosition with
  | nil => exact Or.inl ⟨_, rfl⟩
  | cons op operators ih =>
    rw [selectOperator]
    split_ifs
    · exact ih
    · exact Or.inr rfl
    · exact ih

theorem runRound_returns (endOfInput : Bool) :
    ReturnsUnlessSelected (runRound agents env config round endOfInput runner) := by
  have started : ReturnsUnlessSelected (preRun (round == 0) runner) := by
    rw [preRun]
    split
    · refine selectOperator_returns.bind ?_
      intro operatorPosition _
      dsimp only
      split_ifs
      · exact Or.inr rfl
      · exact Or.inl ⟨_, rfl⟩
    · exact Or.inl ⟨_, rfl⟩
  exact started.bind fun _ _ => Or.inl ⟨_, rfl⟩

theorem runRounds_returns {earlierRounds : Nat} :
    ReturnsUnlessSelected (runRounds agents env config earlierRounds round runner) := by
  induction earlierRounds generalizing round runner with
  | zero => exact runRound_returns true
  | succ earlierRounds ih => exact (runRound_returns false).bind fun _ _ => ih

/-- The loop does not go past the last operator. -/
theorem respond_returns {l : List AgentRef} (enough : (l.filter config.idle).length ≤ ops.length) :
    ∃ messages, respond config ops l = .ok messages := by
  induction l generalizing ops with
  | nil => exact ⟨[], rfl⟩
  | cons agent rest ih =>
    unfold respond
    split
    · rename_i answered
      rw [List.filter_cons_of_neg] at enough
      · exact ih enough
      · rw [ConfiguredPipeline.idle, answered]
        exact Bool.false_ne_true
    · rename_i idle
      rw [List.filter_cons_of_pos] at enough
      · cases ops with
        | nil => cases enough
        | cons op ops =>
          rcases ih (Nat.le_of_succ_le_succ enough) with ⟨messages, responded⟩
          refine ⟨response agent op :: messages, ?_⟩
          dsimp only
          rw [responded]
          rfl
      · rw [ConfiguredPipeline.idle, Bool.eq_false_iff.mpr idle]
        rfl

/-- There are more operators than agents in between. -/
theorem Accepted.idle_le (accepted : Accepted agents config standing)
    (count : ops.length = standing.length) :
    (config.operatorAgents.filter config.idle).length ≤ ops.length := by
  rcases accepted.shape with ⟨single, same⟩ | ⟨mid, all⟩
  · rw [single, List.filter_cons_of_neg, List.filter_nil]
    · exact Nat.zero_le _
    · rw [ConfiguredPipeline.idle, beq_self_eq_true]
      exact Bool.false_ne_true
  · have nodup := accepted.nodup
    rw [all] at nodup ⊢
    rw [filter_idle nodup, count]
    rcases accepted.inOrder with inOrder | ⟨first, -, inOrder⟩
    · rw [← inOrder, all, List.length_cons, List.length_append]
      omega
    · rw [all, List.cons.injEq] at inOrder
      rw [← inOrder.2, List.length_append]
      omega

/-- The run of a configured pipeline completes unless several operators, or one and the generator, are
to be profiled. -/
theorem pipelineLoop_returns {builder : PipelineBuilder}
    (configured : builder.configure agents = .ok config) :
    ReturnsUnlessSelected (pipelineLoop agents env config) := by
  rcases builder.configure_accepted configured with ⟨-, standing, accepted⟩
  have enabled : ∃ enabled, isProfilingEnabled (agents config.dataSourceAgent) = .ok enabled := by
    have validated := accepted.validated
    rw [PipelineBuilder.validate] at validated
    rw [isProfilingEnabled]
    split_ifs at validated ⊢
    · rcases Interrupt.bind_eq_ok validated with ⟨optionValues, parsed, -⟩
      exact ⟨optionValues.profile, by rw [DatagenOperator.isProfilingEnabled, parsed]; rfl⟩
    · rcases Interrupt.bind_eq_ok validated with ⟨optionValues, parsed, -⟩
      exact ⟨optionValues.profile, by rw [MetalCatOperator.isProfilingEnabled, parsed]; rfl⟩
    · exact ⟨false, rfl⟩
  refine ReturnsUnlessSelected.bind (Or.inl enabled) fun enabled _ => ?_
  refine runRounds_returns.bind fun runner rounds => ?_
  have count := (runRounds_spec (Or.inl rfl) rounds).1.length.trans accepted.length
  rcases respond_returns (accepted.idle_le count) with ⟨messages, responded⟩
  exact Or.inl ⟨_, by rw [responded]; rfl⟩

end Run

/-! ## Pipelines of three stages -/

def exampleRegistry : OperatorFactory where
  operatorSpecifications := [⟨"changecase", 1⟩, ⟨"blowfish-encrypt", 2⟩, ⟨"blowfish-decrypt", 3⟩]
  distinct := by decide

/-- An agent without files. -/
def agentFor (operatorType : String) (profile : Bool) : OperatorAgent where
  operatorType := operatorType
  parseOptions := .ok ⟨profile⟩
  internalInputFile := false
  internalInputFilename := ""
  internalOutputFilename := ""

def exampleEnvironment : Environment where
  earlierRounds := 1
  outputSize := fun _ => 4096
  perfmonCounters := fun _ => ⟨1000, fun _ => 100⟩
  inputLine := fun _ => "input"
  outputLine := fun _ => "output"

/-- `datagen | changecase -p | blowfish-encrypt`. -/
def generated (agent : AgentRef) : OperatorAgent :=
  [agentFor "datagen" false, agentFor "changecase" true].getD agent (agentFor "blowfish-encrypt" false)

/-- `blowfish-encrypt -p | changecase | blowfish-decrypt`. -/
def encrypted (agent : AgentRef) : OperatorAgent :=
  [agentFor "blowfish-encrypt" true, agentFor "changecase" false].getD agent
    (agentFor "blowfish-decrypt" false)

def threeStages : PipelineBuilder := ⟨exampleRegistry, [0, 1, 2]⟩

theorem eq_ok_of_toOption {α : Type} {result : Except Failure α} (returned : result.toOption.isSome) :
    result = .ok (result.toOption.get returned) := by
  cases result with
  | error failure => cases returned
  | ok a => rfl

def generatedConfig : ConfiguredPipeline :=
  (threeStages.configure generated).toOption.get (by decide +kernel)

def encryptedConfig : ConfiguredPipeline :=
  (threeStages.configure encrypted).toOption.get (by decide +kernel)

def encryptedRun : Runner :=
  (pipelineLoop encrypted exampleEnvironment encryptedConfig).toOption.get (by decide +kernel)

theorem rightResults_generated : ∃ final,
    pipelineLoop generated exampleEnvironment generatedConfig = .ok final ∧
      RightResults generated generatedConfig final := by
  have configured : threeStages.configure generated = .ok generatedConfig := eq_ok_of_toOption _
  have completed := @eq_ok_of_toOption _
    (pipelineLoop generated exampleEnvironment generatedConfig) (by decide +kernel)
  exact ⟨_, completed,
    (rightResults_iff_aligned configured completed).mpr (Or.inl (by decide +kernel))⟩

/-- The agent in between is told the results of the first operator. -/
theorem not_rightResults_encrypted : threeStages.configure encrypted = .ok encryptedConfig ∧
    pipelineLoop encrypted exampleEnvironment encryptedConfig = .ok encryptedRun ∧
      ¬ RightResults encrypted encryptedConfig encryptedRun := by
  refine ⟨eq_ok_of_toOption _, eq_ok_of_toOption _, ?_⟩
  intro right
  rcases right 1 (by decide +kernel) (by decide +kernel) with ⟨op, isOp, id, size, sent⟩
  have own : ∀ op ∈ encryptedRun.operators, op.spec.id = "changecase" → op.profilingResults = "" := by
    decide +kernel
  have told : ((encryptedRun.sent.filter fun sent => sent.1 == 1 && sent.2.eof).map
      fun sent => sent.2.message) ≠ [""] := by
    decide +kernel
  rw [sent, own op isOp id] at told
  exact told rfl

end MetalFs.Driver.Profiling
