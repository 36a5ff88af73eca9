import MetalFs.Lib.OrderedStore
import MetalFs.Lib.Runs
import MetalFs.Lib.Fifo
import MetalFs.Lib.DoubleBuffer

/-!
# The processing loops of driver and agent

The server runs `PipelineLoop::run` round by round with an `AgentDataSourceContext`
and an `AgentDataSinkContext`; the operator agent runs the loop at the end of its
`main`.  They share a double buffer for the input and one for the output of the
agent, and exchange a `ProcessingRequest` and a `ProcessingResponse` over a stream
socket.  Each party has its own idea of which half of a buffer is current.

The model has one agent.  It is the data source, the data sink or, in a pipeline of
a single stage, both; the other agents of a pipeline only delay the server.  The
texts in the responses are left out.
-/

namespace MetalFs.Driver

open Runs

/-- `BufferSize`. -/
def bufferSize : Nat := 64 * 1024 * 1024

/-- The two halves of a shared buffer. -/
abbrev Memory := DoubleBuffer Byte

/-- `ProcessingRequest`. -/
structure ProcessingRequest where
  size : Nat
  eof : Bool
deriving DecidableEq, Repr

/-- `ProcessingResponse`. -/
structure ProcessingResponse where
  size : Nat
  eof : Bool
deriving DecidableEq, Repr

/-- The place of the agent in the pipeline. -/
inductive Role where
  | single
  | source
  | sink
deriving DecidableEq, Repr

/-- What `PipelineBuilder::configure` decides for the agent: only the first agent of a
pipeline gets an input buffer, and only the last one an output buffer. -/
structure Config where
  role : Role
  inputBuffer : Bool
  outputBuffer : Bool
  sourceOutput : role = .source → outputBuffer = false
  sinkInput : role = .sink → inputBuffer = false

/-- The only agent of a pipeline. -/
def Config.single (inputBuffer outputBuffer : Bool) : Config where
  role := .single
  inputBuffer := inputBuffer
  outputBuffer := outputBuffer
  sourceOutput := nofun
  sinkInput := nofun

/-- The data of the rounds, what goes into the pipeline and what comes out of it.
An empty input is not sent through the pipeline. -/
structure Scenario where
  rounds : List (List Byte × List Byte)
  nonempty : rounds ≠ []
  idle : ∀ round ∈ rounds, round.1 = [] → round.2 = []
  bounded : ∀ round ∈ rounds, round.1.length ≤ bufferSize ∧ round.2.length ≤ bufferSize

namespace Scenario

/-- The input of a round. -/
def input (scenario : Scenario) (round : Nat) : List Byte := (scenario.rounds.getD round ([], [])).1

/-- The output of a round. -/
def output (scenario : Scenario) (round : Nat) : List Byte :=
  (scenario.rounds.getD round ([], [])).2

/-- The number of rounds. -/
def count (scenario : Scenario) : Nat := scenario.rounds.length

end Scenario

/-- A chunk of input, the half it is in and whether it is the last one. -/
structure Chunk where
  half : Bool
  bytes : List Byte
  eof : Bool
deriving DecidableEq, Repr

/-! ## The agent -/

/-- Where the agent is in its loop; in the `read` and `write` states the `fread` or
`fwrite` is going on.  `writeLast` belongs to the iteration after the last response. -/
inductive AgentPc where
  | readFirst
  | send
  | write
  | readNext
  | receive
  | writeLast
  | done
deriving DecidableEq, Repr

/-- The variables of `main`.  `reads` lists the chunks read from `infd` and `received`
counts the responses. -/
structure Agent where
  pc : AgentPc
  processingResponse : ProcessingResponse
  bytesRead : Nat
  eof : Bool
  inputCurrent : Bool
  outputCurrent : Bool
  stdout : List Byte
  reads : List Chunk
  received : Nat

/-! ## The server -/

/-- Where the server is in a round of `SnapPipelineRunner::run`: while `running`, the
FPGA reads the input and writes the output. -/
inductive ServerPc where
  | configure
  | start
  | running
  | finalize
  | done
deriving DecidableEq, Repr

/-- The contexts of the server.  `processed` lists the chunks it took from the input
buffer and `accepted` counts the requests. -/
structure Server where
  pc : ServerPc
  round : Nat
  size : Nat
  endOfInput : Bool
  inputCurrent : Bool
  outputCurrent : Bool
  outputSize : Nat
  processed : List Chunk
  accepted : Nat

/-- Both parties, the messages under way and the shared buffers. -/
structure System where
  agent : Agent
  server : Server
  requests : List ProcessingRequest
  responses : List ProcessingResponse
  input : Memory
  output : Memory

/-! ## Steps of the agent -/

/-- `fread` of the next chunk into the current half, and `swap`. -/
def readInput (scenario : Scenario) (agent : Agent) : Agent :=
  let bytes := scenario.input agent.reads.length
  let eof := decide (agent.reads.length + 1 = scenario.count)
  { agent with
    bytesRead := bytes.length
    eof := eof
    inputCurrent := !agent.inputCurrent
    reads := agent.reads ++ [⟨agent.inputCurrent, bytes, eof⟩] }

/-- The input buffer after the `fread`. -/
def inputRead (scenario : Scenario) (agent : Agent) (input : Memory) : Memory :=
  input.fill agent.inputCurrent (scenario.input agent.reads.length)

/-- Write the output of the previous iteration to `stdout`, and `swap`. -/
def writeOutput (config : Config) (output : Memory) (agent : Agent) : Agent :=
  if agent.processingResponse.size ≠ 0 ∧ config.outputBuffer = true then
    { agent with
      stdout := agent.stdout ++ (output agent.outputCurrent).take agent.processingResponse.size
      outputCurrent := !agent.outputCurrent }
  else agent

/-- The agent continues at `pc`. -/
def Agent.goto (agent : Agent) (pc : AgentPc) : Agent := { agent with pc := pc }

/-- The agent has received a response. -/
def Agent.receive (agent : Agent) (processingResponse : ProcessingResponse) : Agent :=
  { agent with processingResponse := processingResponse, received := agent.received + 1 }

/-- One step of the agent; `none` if it has to wait or has returned. -/
def agentStep (config : Config) (scenario : Scenario) (s : System) : Option System :=
  match s.agent.pc with
  | .readFirst =>
    some { s with
      agent := (readInput scenario s.agent).goto .send
      input := inputRead scenario s.agent s.input }
  | .send =>
    if s.agent.processingResponse.eof then some { s with agent := s.agent.goto .writeLast }
    else
      let processingRequest := ⟨s.agent.bytesRead, s.agent.eof⟩
      some { s with
        agent := s.agent.goto .write
        requests := s.requests ++ [processingRequest] }
  | .write =>
    let next := if config.inputBuffer = true ∧ s.agent.eof = false then .readNext else .receive
    some { s with agent := (writeOutput config s.output s.agent).goto next }
  | .readNext =>
    some { s with
      agent := (readInput scenario s.agent).goto .receive
      input := inputRead scenario s.agent s.input }
  | .receive =>
    match s.responses with
    | [] => none
    | processingResponse :: responses =>
      some { s with
        agent := (s.agent.receive processingResponse).goto .send
        responses := responses }
  | .writeLast => some { s with agent := (writeOutput config s.output s.agent).goto .done }
  | .done => none

/-! ## Steps of the server -/

namespace Config

/-- The data source of the pipeline is the input buffer of the agent. -/
def readsInput (config : Config) : Bool := config.role ≠ .sink && config.inputBuffer

/-- The data sink of the pipeline is the output buffer of the agent. -/
def writesOutput (config : Config) : Bool := config.role ≠ .source && config.outputBuffer

/-- `configure` of the source or of the sink context waits for a request of the agent;
in a single stage the sink context skips it. -/
def receives (config : Config) (initial : Bool) : Bool :=
  match config.role with
  | .single | .source => initial || config.inputBuffer
  | .sink => initial || config.outputBuffer

/-- `finalize` of the sink or of the source context sends a response to the agent; in
a single stage the source context skips it. -/
def sends (config : Config) (endOfInput : Bool) : Bool :=
  match config.role with
  | .single | .sink => endOfInput || config.outputBuffer || config.inputBuffer
  | .source => endOfInput || config.inputBuffer

end Config

/-- The server continues at `start`, with the size and the end of the input of this
round: from the request, or from a file, the generator or another agent. -/
def configured (config : Config) (scenario : Scenario) (request : ProcessingRequest)
    (server : Server) : Server :=
  { server with
    pc := .start
    size := if config.readsInput then request.size else (scenario.input server.round).length
    endOfInput := if config.readsInput then request.eof
      else decide (server.round + 1 = scenario.count) }

/-- The end of the run of the pipeline.  The size has gone through a 32-bit field. -/
def finishRun (config : Config) (scenario : Scenario) (s : System) : System :=
  let size := s.server.size % 2 ^ 32
  let output := if 0 < size then scenario.output s.server.round else []
  let chunk : Chunk :=
    ⟨s.server.inputCurrent, (s.input s.server.inputCurrent).take size, s.server.endOfInput⟩
  { s with
    server := { s.server with
      pc := .finalize
      outputSize := output.length
      processed := if config.readsInput then s.server.processed ++ [chunk] else s.server.processed }
    output := if config.writesOutput then s.output.fill s.server.outputCurrent output else s.output }

/-- `finalize` of the source context and of the sink context. -/
def finalizeRound (config : Config) (s : System) : System :=
  let response : ProcessingResponse :=
    ⟨if config.writesOutput then s.server.outputSize else 0, s.server.endOfInput⟩
  { s with
    server := { s.server with
      pc := if s.server.endOfInput then .done else .configure
      round := s.server.round + 1
      inputCurrent := if config.readsInput then !s.server.inputCurrent else s.server.inputCurrent
      outputCurrent :=
        if config.writesOutput then !s.server.outputCurrent else s.server.outputCurrent }
    responses := if config.sends s.server.endOfInput then s.responses ++ [response]
      else s.responses }

/-- One step of the server; `none` if it has to wait or has finished. -/
def serverStep (config : Config) (scenario : Scenario) (s : System) : Option System :=
  match s.server.pc with
  | .configure =>
    if config.receives (s.server.round = 0) then
      match s.requests with
      | [] => none
      | request :: requests =>
        some { s with
          requests := requests
          server :=
            { configured config scenario request s.server with accepted := s.server.accepted + 1 } }
    else some { s with server := configured config scenario ⟨0, false⟩ s.server }
  | .start => some { s with server := { s.server with pc := .running } }
  | .running => some (finishRun config scenario s)
  | .finalize => some (finalizeRound config s)
  | .done => none

/-- The party that takes the next step. -/
inductive Party where
  | agent
  | server
deriving DecidableEq, Repr

/-- Any of the parties takes a step. -/
def step (config : Config) (scenario : Scenario) (s : System) : Party → Option System
  | .agent => agentStep config scenario s
  | .server => serverStep config scenario s

/-- The system when the loops begin; the buffers may hold anything. -/
def initial (config : Config) (input output : Memory) : System where
  agent :=
    { pc := if config.inputBuffer then .readFirst else .send
      processingResponse := ⟨0, false⟩
      bytesRead := 0
      eof := false
      inputCurrent := false
      outputCurrent := false
      stdout := []
      reads := []
      received := 0 }
  server :=
    { pc := .configure
      round := 0
      size := 0
      endOfInput := false
      inputCurrent := false
      outputCurrent := false
      outputSize := 0
      processed := []
      accepted := 0 }
  requests := []
  responses := []
  input := input
  output := output

end MetalFs.Driver
