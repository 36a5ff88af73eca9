import MetalFs.Lib.Runs
import MetalFs.Lib.Interrupt
import MetalFs.Driver.PipelineDetection

/-!
# The messages of the server

`Server::processRequest` registers an agent and, if that completes a pipeline, turns the
other registered agents away, tells the agents of the pipeline that they are accepted and
runs it.  At the end of the input every agent gets a `ProcessingResponse` with `eof`, from
`AgentDataSourceContext::finalize`, `AgentDataSinkContext::finalize` or `PipelineLoop::run`.
Last, `AgentPool::reset` turns those agents away that are not marked as terminated.

The server is modelled by its pool and the messages it has sent.  What the outside decides is
an argument: the number of rounds, whether the agents have buffers, and which of the calls
that can throw do.  Of the messages only those fields are kept that say how the run ends;
sizes, file names and profiling results are left out.
-/

namespace MetalFs.Driver.Requests

open Interrupt

/-- A message to an agent. -/
inductive ServerMessage where
  | registrationResponse (valid : Bool) (errorMsg : String)
  | processingResponse (eof : Bool)
deriving DecidableEq, Repr

/-- The exceptions that `processRequest` catches. -/
inductive Exception where
  | clientError (agent : AgentRef) (what : String)
  | other

/-- The calls of a pipeline run that can throw.  A call that sends a message does not throw
once it has been sent. -/
inductive Call where
  /-- `PipelineBuilder::configure` up to the responses. -/
  | configure
  | acceptAgent (agent : AgentRef)
  /-- The constructors of `PipelineLoop::run`. -/
  | establishContexts
  | receiveReady (agent : AgentRef)
  | configureSource (round : Nat)
  | configureSink (round : Nat)
  /-- The job on the card with `preRun` and `postRun`. -/
  | runPipeline (round : Nat)
  | finalizeSource (round : Nat)
  | finalizeSink (round : Nat)
  | respond (agent : AgentRef)
deriving DecidableEq, Repr

structure Server where
  agents : AgentPool
  sent : List (AgentRef × ServerMessage)

/-- What the outside decides about a call of `processRequest`. -/
structure Environment where
  /-- `none` if the socket does not carry a request. -/
  request : Option RegistrationRequest
  linkOrder : List AgentRef
  searchOrder : List AgentRef
  releaseOrder : List AgentRef
  /-- The search for a pipeline ends within so many agents. -/
  fuel : Nat
  /-- The data source agent has an input buffer. -/
  inputBuffer : Bool
  /-- The data sink agent has an output buffer. -/
  outputBuffer : Bool
  /-- The number of rounds before the one that reaches the end of the input. -/
  earlierRounds : Nat
  failure : Call → Option Exception

abbrev ServerM := EStateM Exception Server

namespace Server

def send (agent : AgentRef) (message : ServerMessage) (server : Server) : Server :=
  { server with sent := server.sent ++ [(agent, message)] }

def setTerminated (agent : AgentRef) (server : Server) : Server :=
  { server with agents := server.agents.update agent OperatorAgent.setTerminated }

def setError (agent : AgentRef) (error : String) (server : Server) : Server :=
  { server with agents := server.agents.update agent (OperatorAgent.setError · error) }

/-! ## The pool's messages -/

def sendRegistrationInvalid (server : Server) (agent : AgentRef) : Server :=
  let error := (server.agents.agents agent).error
  let errorMsg := if error ≠ "" then error else "An invalid operator chain was specified.\n"
  (server.send agent (.registrationResponse false errorMsg)).setTerminated agent

def sendAllAgentsInvalid (server : Server) (order : List AgentRef) : Server :=
  let server := order.foldl sendRegistrationInvalid server
  { server with agents.registeredAgents := ∅ }

def releaseUnusedAgents (server : Server) (order : List AgentRef) : Server :=
  server.sendAllAgentsInvalid order

/-- The body of the loop of `reset`. -/
def resetAgent (server : Server) (agent : AgentRef) : Server :=
  if (server.agents.agents agent).terminated then server else server.sendRegistrationInvalid agent

def reset (server : Server) (order : List AgentRef) : Server :=
  let server := server.agents.pipelineAgents.foldl resetAgent server
  let server := { server with agents.pipelineAgents := [] }
  server.sendAllAgentsInvalid order

end Server

/-! ## The run of a pipeline -/

section Pipeline

variable (env : Environment)

/-- `PipelineBuilder::configure`. -/
def configure (pipelineAgents : List AgentRef) : ServerM Unit := do
  perform env.failure .configure
  pipelineAgents.forM fun agent => do
    perform env.failure (.acceptAgent agent)
    modify (Server.send agent (.registrationResponse true ""))

/-- `AgentDataSourceContext::finalize`. -/
def finalizeSource (source : AgentRef) (singleStage : Bool) (round : Nat) (eof : Bool) :
    ServerM Unit := do
  perform env.failure (.finalizeSource round)
  if (eof || env.inputBuffer) && !singleStage then
    modify (Server.send source (.processingResponse eof))

/-- `AgentDataSinkContext::finalize`.  The sink has an input buffer only if it is the source. -/
def finalizeSink (sink : AgentRef) (singleStage : Bool) (round : Nat) (endOfInput : Bool) :
    ServerM Unit := do
  perform env.failure (.finalizeSink round)
  if endOfInput || env.outputBuffer || (singleStage && env.inputBuffer) then
    modify (Server.send sink (.processingResponse endOfInput))
    if endOfInput then
      modify (Server.setTerminated sink)

/-- `SnapPipelineRunner::run`. -/
def runRound (source sink : AgentRef) (round : Nat) (endOfInput : Bool) : ServerM Unit := do
  perform env.failure (.configureSource round)
  perform env.failure (.configureSink round)
  perform env.failure (.runPipeline round)
  finalizeSource env source (source == sink) round endOfInput
  finalizeSink env sink (source == sink) round endOfInput

/-- The loop of `PipelineLoop::run`, from the given round on. -/
def runRounds (source sink : AgentRef) : Nat → Nat → ServerM Unit
  | 0, round => runRound env source sink round true
  | earlierRounds + 1, round => do
    runRound env source sink round false
    runRounds source sink earlierRounds (round + 1)

/-- The agents that only wait for the end. -/
def idleAgents (pipelineAgents : List AgentRef) (source sink : AgentRef) : List AgentRef :=
  pipelineAgents.filter fun agent => !(agent == source || agent == sink)

/-- `PipelineLoop::run`. -/
def pipelineLoop (pipelineAgents : List AgentRef) (source sink : AgentRef) : ServerM Unit := do
  perform env.failure .establishContexts
  (idleAgents pipelineAgents source sink).forM fun agent =>
    perform env.failure (.receiveReady agent)
  runRounds env source sink env.earlierRounds 0
  (idleAgents pipelineAgents source sink).forM fun agent => do
    perform env.failure (.respond agent)
    modify (Server.send agent (.processingResponse true))

/-- The `try` block of `processRequest`. -/
def runConfigured (pipelineAgents : List AgentRef) (source sink : AgentRef) : ServerM Unit := do
  configure env pipelineAgents
  pipelineLoop env pipelineAgents source sink

end Pipeline

namespace Server

/-- The handlers of the `try` block. -/
def handle : EStateM.Result Exception Server Unit → Server
  | .ok _ server => server
  | .error (.clientError agent what) server => server.setError agent what
  | .error .other server => server

/-- `processRequest`; `none` if the search for a pipeline does not end. -/
def processRequest (server : Server) (env : Environment) : Option Server :=
  match env.request with
  | none => some server
  | some request => do
    let agents := server.agents.registerAgent env.linkOrder request
    let (found, agents) ← agents.containsValidPipeline env.searchOrder env.fuel
    let server := { server with agents }
    if !found then some server
    else
      let pipeline := agents.cachedPipeline
      let server := server.releaseUnusedAgents env.releaseOrder
      match pipeline.head?, pipeline.getLast? with
      | some source, some sink =>
        let server := handle (runConfigured env pipeline source sink server)
        -- Nothing is registered any more, so that the second loop of `reset` has no pass.
        some (server.reset [])
      | _, _ => none

end Server

end MetalFs.Driver.Requests
