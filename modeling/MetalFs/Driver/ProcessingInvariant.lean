import MetalFs.Driver.Processing

/-!
# Who has sent and received what

For the configurations in which the server answers every round, the messages under
way and the places of both parties are determined by two numbers: the rounds the
server has finished and the responses the agent has received.  `Control` says how,
`Control.run` that it holds in every run.
-/

namespace MetalFs.Driver

open Runs Fifo

/-! ## What a step does -/

section Moves

variable (config : Config) (scenario : Scenario) (s : System)

/-- The steps of the agent. -/
inductive AgentMoves : System → Prop where
  | readFirst (pc : s.agent.pc = .readFirst) : AgentMoves { s with
      agent := (readInput scenario s.agent).goto .send
      input := inputRead scenario s.agent s.input }
  | stop (pc : s.agent.pc = .send) (eof : s.agent.processingResponse.eof = true) :
    AgentMoves { s with agent := s.agent.goto .writeLast }
  | send (pc : s.agent.pc = .send) (eof : s.agent.processingResponse.eof = false) :
    AgentMoves { s with
      agent := s.agent.goto .write
      requests := s.requests ++ [⟨s.agent.bytesRead, s.agent.eof⟩] }
  | write (pc : s.agent.pc = .write) : AgentMoves { s with
      agent := (writeOutput config s.output s.agent).goto
        (if config.inputBuffer = true ∧ s.agent.eof = false then .readNext else .receive) }
  | readNext (pc : s.agent.pc = .readNext) : AgentMoves { s with
      agent := (readInput scenario s.agent).goto .receive
      input := inputRead scenario s.agent s.input }
  | receive {response : ProcessingResponse} {responses : List ProcessingResponse}
    (pc : s.agent.pc = .receive) (waiting : s.responses = response :: responses) :
    AgentMoves { s with
      agent := (s.agent.receive response).goto .send
      responses := responses }
  | writeLast (pc : s.agent.pc = .writeLast) :
    AgentMoves { s with agent := (writeOutput config s.output s.agent).goto .done }

/-- The steps of the server. -/
inductive ServerMoves : System → Prop where
  | receive {request : ProcessingRequest} {requests : List ProcessingRequest}
    (pc : s.server.pc = .configure) (receives : config.receives (s.server.round = 0) = true)
    (waiting : s.requests = request :: requests) :
    ServerMoves { s with
      requests := requests
      server :=
        { configured config scenario request s.server with accepted := s.server.accepted + 1 } }
  | proceed (pc : s.server.pc = .configure)
    (receives : config.receives (s.server.round = 0) = false) :
    ServerMoves { s with server := configured config scenario ⟨0, false⟩ s.server }
  | start (pc : s.server.pc = .start) :
    ServerMoves { s with server := { s.server with pc := .running } }
  | finishRun (pc : s.server.pc = .running) : ServerMoves (finishRun config scenario s)
  | finalize (pc : s.server.pc = .finalize) : ServerMoves (finalizeRound config s)

variable {config scenario s} {s' : System}

theorem agentStep_moves (stepped : agentStep config scenario s = some s') :
    AgentMoves config scenario s s' := by
  unfold agentStep at stepped
  cases pc : s.agent.pc with
  | readFirst =>
    rw [pc] at stepped
    cases stepped
    exact .readFirst pc
  | send =>
    rw [pc] at stepped
    cases eof : s.agent.processingResponse.eof with
    | true =>
      simp only [eof, if_true] at stepped
      cases stepped
      exact .stop pc eof
    | false =>
      simp only [eof, Bool.false_eq_true, if_false] at stepped
      cases stepped
      exact .send pc eof
  | write =>
    rw [pc] at stepped
    cases stepped
    exact .write pc
  | readNext =>
    rw [pc] at stepped
    cases stepped
    exact .readNext pc
  | receive =>
    rw [pc] at stepped
    cases waiting : s.responses with
    | nil =>
      rw [waiting] at stepped
      cases stepped
    | cons response responses =>
      rw [waiting] at stepped
      cases stepped
      exact .receive pc waiting
  | writeLast =>
    rw [pc] at stepped
    cases stepped
    exact .writeLast pc
  | done =>
    rw [pc] at stepped
    cases stepped

theorem serverStep_moves (stepped : serverStep config scenario s = some s') :
    ServerMoves config scenario s s' := by
  unfold serverStep at stepped
  cases pc : s.server.pc with
  | configure =>
    rw [pc] at stepped
    dsimp only at stepped
    cases receives : config.receives (s.server.round = 0) with
    | true =>
      rw [receives, if_pos rfl] at stepped
      cases waiting : s.requests with
      | nil =>
        rw [waiting] at stepped
        cases stepped
      | cons request requests =>
        rw [waiting] at stepped
        cases stepped
        exact .receive pc receives waiting
    | false =>
      rw [receives, if_neg Bool.false_ne_true] at stepped
      cases stepped
      exact .proceed pc receives
  | start =>
    rw [pc] at stepped
    cases stepped
    exact .start pc
  | running =>
    rw [pc] at stepped
    cases stepped
    exact .finishRun pc
  | finalize =>
    rw [pc] at stepped
    cases stepped
    exact .finalize pc
  | done =>
    rw [pc] at stepped
    cases stepped

end Moves

/-! ## The messages -/

namespace Scenario

/-- The request for a round. -/
def request (config : Config) (scenario : Scenario) (round : Nat) : ProcessingRequest :=
  if config.inputBuffer then
    ⟨(scenario.input round).length, decide (round + 1 = scenario.count)⟩
  else ⟨0, false⟩

/-- The response of a round. -/
def response (config : Config) (scenario : Scenario) (round : Nat) : ProcessingResponse :=
  ⟨if config.outputBuffer then (scenario.output round).length else 0,
    decide (round + 1 = scenario.count)⟩

/-- The response the agent has after receiving `received` of them. -/
def lastResponse (config : Config) (scenario : Scenario) : Nat → ProcessingResponse
  | 0 => ⟨0, false⟩
  | received + 1 => scenario.response config received

theorem count_pos (scenario : Scenario) : 0 < scenario.count :=
  List.length_pos_of_ne_nil scenario.nonempty

theorem round_mem {scenario : Scenario} {round : Nat} (below : round < scenario.count) :
    (scenario.input round, scenario.output round) ∈ scenario.rounds := by
  have same : scenario.rounds.getD round ([], []) ∈ scenario.rounds := by
    rw [List.getD_eq_getElem _ _ below]
    exact List.getElem_mem below
  exact same

theorem input_small {scenario : Scenario} {round : Nat} (below : round < scenario.count) :
    (scenario.input round).length % 2 ^ 32 = (scenario.input round).length := by
  have bound := (scenario.bounded _ (round_mem below)).1
  exact Nat.mod_eq_of_lt (Nat.lt_of_le_of_lt bound (by decide))

/-- What the pipeline writes is the output of the round, also when it is not run. -/
theorem output_eq {scenario : Scenario} {round : Nat} (below : round < scenario.count) :
    (if 0 < (scenario.input round).length % 2 ^ 32 then scenario.output round else []) =
      scenario.output round := by
  rw [input_small below]
  split
  · rfl
  · rename_i empty
    have noInput : scenario.input round = [] := List.eq_nil_of_length_eq_zero (by omega)
    exact (scenario.idle _ (round_mem below) noInput).symm

theorem lastResponse_eof (config : Config) {scenario : Scenario} {received : Nat}
    (last : received ≤ scenario.count) :
    (scenario.lastResponse config received).eof = true ↔ received = scenario.count := by
  have positive := scenario.count_pos
  cases received with
  | zero => exact ⟨nofun, fun zero => absurd zero (by omega)⟩
  | succ received => simp only [lastResponse, response, decide_eq_true_eq]

end Scenario

namespace Config

variable (config : Config)

theorem readsInput_eq : config.readsInput = config.inputBuffer := by
  have only := config.sinkInput
  unfold readsInput
  cases role : config.role with
  | sink => rw [only role]; rfl
  | single => rfl
  | source => rfl

theorem writesOutput_eq : config.writesOutput = config.outputBuffer := by
  have only := config.sourceOutput
  unfold writesOutput
  cases role : config.role with
  | source => rw [only role]; rfl
  | single => rfl
  | sink => rfl

theorem receives_initial : config.receives true = true := by
  unfold receives
  cases config.role <;> rfl

theorem receives_of_handshake {initial : Bool} (handshake : config.receives false = true) :
    config.receives initial = true := by
  cases initial with
  | false => exact handshake
  | true => exact config.receives_initial

theorem sends_of_responds {endOfInput : Bool} (responds : config.sends false = true) :
    config.sends endOfInput = true := by
  cases endOfInput with
  | false => exact responds
  | true =>
    unfold sends
    cases config.role <;> rfl

/-- The requests the server has taken. -/
def acceptedAt (pc : ServerPc) (round : Nat) : Nat :=
  match pc with
  | .configure | .done =>
    if config.receives false then round else if round = 0 then 0 else 1
  | .start | .running | .finalize => if config.receives false then round + 1 else 1

theorem handshake_of_inputBuffer (buffer : config.inputBuffer = true) :
    config.receives false = true := by
  have only := config.sinkInput
  unfold receives
  cases role : config.role with
  | sink =>
    rw [only role] at buffer
    cases buffer
  | single => exact buffer
  | source => exact buffer

theorem responds_of_inputBuffer (buffer : config.inputBuffer = true) :
    config.sends false = true := by
  unfold sends
  cases config.role with
  | single => simp only [buffer, Bool.or_true]
  | source => simp only [buffer, Bool.or_true]
  | sink => simp only [buffer, Bool.or_true]

theorem responds_of_outputBuffer (buffer : config.outputBuffer = true) :
    config.sends false = true := by
  have only := config.sourceOutput
  unfold sends
  cases role : config.role with
  | single => simp only [buffer, Bool.or_true, Bool.true_or]
  | source =>
    rw [only role] at buffer
    cases buffer
  | sink => simp only [buffer, Bool.or_true, Bool.true_or]

/-- A request the server waits for is the one for its round. -/
theorem acceptedAt_of_receives {round : Nat} (receives : config.receives (round = 0) = true) :
    config.acceptedAt .configure round = round ∧ config.acceptedAt .start round = round + 1 := by
  unfold acceptedAt
  cases handshake : config.receives false with
  | true => exact ⟨rfl, rfl⟩
  | false =>
    have first : round = 0 := by
      cases zero : decide (round = 0) with
      | true => exact of_decide_eq_true zero
      | false =>
        rw [zero, handshake] at receives
        cases receives
    rw [first]
    exact ⟨rfl, rfl⟩

theorem acceptedAt_of_not_receives {round : Nat}
    (continues : config.receives (round = 0) = false) :
    config.acceptedAt .configure round = config.acceptedAt .start round := by
  cases zero : decide (round = 0) with
  | true =>
    rw [zero, config.receives_initial] at continues
    cases continues
  | false =>
    rw [zero] at continues
    simp only [acceptedAt, continues, Bool.false_eq_true, if_false, of_decide_eq_false zero]

end Config

/-! ## The places of the agent -/

namespace AgentPc

/-- The request for the next response is sent. -/
def sent : AgentPc → Nat
  | .write | .readNext | .receive => 1
  | .readFirst | .send | .writeLast | .done => 0

/-- The places the agent can be in after a number of responses. -/
def Allows (pc : AgentPc) (config : Config) (received count : Nat) : Prop :=
  match pc with
  | .readFirst => received = 0 ∧ config.inputBuffer = true
  | .send => True
  | .write | .receive => received < count
  | .readNext => received + 1 < count ∧ config.inputBuffer = true
  | .writeLast | .done => received = count

/-- The chunks the agent has read. -/
def readCount (pc : AgentPc) (received count : Nat) : Nat :=
  match pc with
  | .readFirst => 0
  | .send | .write => min (received + 1) count
  | .readNext => received + 1
  | .receive => min (received + 2) count
  | .writeLast | .done => count

end AgentPc

/-- The server works on a round. -/
def ServerPc.Active (pc : ServerPc) : Prop := pc = .start ∨ pc = .running ∨ pc = .finalize

theorem ServerPc.Active.inRound {pc : ServerPc} (active : pc.Active) :
    pc ≠ .configure ∧ pc ≠ .done := by
  rcases active with start | running | finalize
  · rw [start]
    exact ⟨nofun, nofun⟩
  · rw [running]
    exact ⟨nofun, nofun⟩
  · rw [finalize]
    exact ⟨nofun, nofun⟩

theorem Config.acceptedAt_of_active (config : Config) {pc : ServerPc} (active : pc.Active)
    (round : Nat) :
    config.acceptedAt pc round = if config.receives false then round + 1 else 1 := by
  rcases active with start | running | finalize
  · rw [start]
    rfl
  · rw [running]
    rfl
  · rw [finalize]
    rfl

/-- The rounds the pipeline has run for. -/
def Server.taken (server : Server) : Nat :=
  if server.pc = .finalize then server.round + 1 else server.round

theorem Server.taken_of_finalize {server : Server} (pc : server.pc = .finalize) :
    server.taken = server.round + 1 := if_pos pc

theorem Server.taken_of_not_finalize {server : Server} (pc : server.pc ≠ .finalize) :
    server.taken = server.round := if_neg pc

/-- Between two rounds. -/
theorem finalizeRound_idle (config : Config) (s : System) :
    (finalizeRound config s).server.pc ≠ .running ∧
      (finalizeRound config s).server.taken = s.server.round + 1 := by
  unfold Server.taken finalizeRound
  cases s.server.endOfInput with
  | true => exact ⟨nofun, rfl⟩
  | false => exact ⟨nofun, rfl⟩

theorem Server.round_le_taken (server : Server) : server.round ≤ server.taken := by
  unfold taken
  split <;> omega

/-- What the agent has read and received. -/
structure AgentControl (config : Config) (scenario : Scenario) (agent : Agent) : Prop where
  held : agent.processingResponse = scenario.lastResponse config agent.received
  received : agent.received ≤ scenario.count
  place : agent.pc.Allows config agent.received scenario.count
  reads : config.inputBuffer = true →
    agent.reads.length = agent.pc.readCount agent.received scenario.count
  lastRead : config.inputBuffer = true → agent.pc ≠ .readFirst →
    agent.bytesRead = (scenario.input (agent.reads.length - 1)).length ∧
      agent.eof = decide (agent.reads.length = scenario.count)
  noRead : config.inputBuffer = false → agent.bytesRead = 0 ∧ agent.eof = false

/-- What the server has done in its round. -/
structure ServerControl (config : Config) (scenario : Scenario) (server : Server) : Prop where
  rounds : server.round ≤ scenario.count
  ended : server.pc = .done ↔ server.round = scenario.count
  accepted : server.accepted = config.acceptedAt server.pc server.round
  active : server.pc.Active →
    server.size = (scenario.input server.round).length ∧
      server.endOfInput = decide (server.round + 1 = scenario.count)
  written : server.pc = .finalize → server.outputSize = (scenario.output server.round).length

/-- The state of the protocol. -/
structure Control (config : Config) (scenario : Scenario) (s : System) : Prop where
  agent : AgentControl config scenario s.agent
  server : ServerControl config scenario s.server
  order : s.agent.received ≤ s.server.round
  asked : s.server.accepted ≤ s.agent.received + s.agent.pc.sent
  responses : s.responses = between (scenario.response config) s.agent.received s.server.round
  requests : s.requests = between (scenario.request config) s.server.accepted
    (s.agent.received + s.agent.pc.sent)

/-! ## Steps of the agent -/

section Agent

variable {config : Config} {scenario : Scenario} {agent : Agent}

theorem readInput_length : (readInput scenario agent).reads.length = agent.reads.length + 1 := by
  simp only [readInput, List.length_append, List.length_cons, List.length_nil]

theorem AgentControl.readFirst (control : AgentControl config scenario agent)
    (pc : agent.pc = .readFirst) :
    AgentControl config scenario ((readInput scenario agent).goto .send) := by
  have positive := scenario.count_pos
  have place := control.place
  have before := control.reads
  rw [pc] at place before
  obtain ⟨zero, buffer⟩ := place
  have none : agent.reads.length = 0 := before buffer
  refine ⟨control.held, control.received, trivial, ?_, ?_, ?_⟩
  · intro _
    refine readInput_length.trans ?_
    simp only [AgentPc.readCount, Agent.goto, readInput, zero, none]
    omega
  · intro _ _
    have length : ((readInput scenario agent).goto .send).reads.length = 1 := by
      refine readInput_length.trans ?_
      rw [none]
    rw [length]
    simp only [Agent.goto, readInput, none]
    exact ⟨trivial, trivial⟩
  · intro noBuffer
    rw [buffer] at noBuffer
    cases noBuffer

theorem AgentControl.readNext (control : AgentControl config scenario agent)
    (pc : agent.pc = .readNext) :
    AgentControl config scenario ((readInput scenario agent).goto .receive) := by
  have place := control.place
  have before := control.reads
  rw [pc] at place before
  obtain ⟨more, buffer⟩ := place
  have count : agent.reads.length = agent.received + 1 := before buffer
  refine ⟨control.held, control.received, show agent.received < _ by omega, ?_, ?_, ?_⟩
  · intro _
    refine readInput_length.trans ?_
    simp only [AgentPc.readCount, Agent.goto, readInput, count]
    omega
  · intro _ _
    have length : ((readInput scenario agent).goto .receive).reads.length =
      agent.reads.length + 1 := readInput_length
    rw [length, Nat.add_sub_cancel]
    exact ⟨rfl, rfl⟩
  · intro noBuffer
    rw [buffer] at noBuffer
    cases noBuffer

theorem AgentControl.send (control : AgentControl config scenario agent) (pc : agent.pc = .send) :
    (agent.processingResponse.eof = true →
      AgentControl config scenario (agent.goto .writeLast)) ∧
    (agent.processingResponse.eof = false → AgentControl config scenario (agent.goto .write) ∧
      ⟨agent.bytesRead, agent.eof⟩ = scenario.request config agent.received) := by
  have ends := Scenario.lastResponse_eof config control.received
  have received := control.received
  rw [← control.held] at ends
  have before := control.reads
  have lastRead := control.lastRead
  rw [pc] at before lastRead
  constructor
  · intro eof
    refine ⟨control.held, control.received, ends.mp eof, ?_, fun buffer _ => lastRead buffer nofun,
      control.noRead⟩
    intro buffer
    have := ends.mp eof
    refine (before buffer).trans ?_
    simp only [AgentPc.readCount, Agent.goto]
    omega
  · intro eof
    have more : agent.received < scenario.count := by
      have : agent.received ≠ scenario.count := by
        intro last
        rw [ends.mpr last] at eof
        cases eof
      omega
    refine ⟨⟨control.held, control.received, more, before, fun buffer _ => lastRead buffer nofun,
      control.noRead⟩, ?_⟩
    cases buffer : config.inputBuffer with
    | true =>
      obtain ⟨size, last⟩ := lastRead buffer nofun
      have count : agent.reads.length = agent.received + 1 := by
        have := before buffer
        simp only [AgentPc.readCount] at this
        omega
      rw [count, Nat.add_sub_cancel] at size
      rw [count] at last
      simp only [Scenario.request, buffer, if_true, size, last]
    | false =>
      obtain ⟨size, last⟩ := control.noRead buffer
      simp only [Scenario.request, buffer, size, last, Bool.false_eq_true, if_false]

theorem writeOutput_eq (config : Config) (output : Memory) (agent : Agent) :
    ∃ stdout outputCurrent, writeOutput config output agent =
      { agent with stdout := stdout, outputCurrent := outputCurrent } := by
  unfold writeOutput
  split
  · exact ⟨_, _, rfl⟩
  · exact ⟨_, _, rfl⟩

theorem AgentControl.write (control : AgentControl config scenario agent) (pc : agent.pc = .write)
    (output : Memory) :
    AgentControl config scenario ((writeOutput config output agent).goto
      (if config.inputBuffer = true ∧ agent.eof = false then .readNext else .receive)) := by
  obtain ⟨stdout, outputCurrent, same⟩ := writeOutput_eq config output agent
  have place := control.place
  have before := control.reads
  have lastRead := control.lastRead
  rw [pc] at place before lastRead
  have more : agent.received < scenario.count := place
  have count : config.inputBuffer = true → agent.reads.length = agent.received + 1 := by
    intro buffer
    have := before buffer
    simp only [AgentPc.readCount] at this
    omega
  rw [same]
  split
  · rename_i continues
    obtain ⟨buffer, running⟩ := continues
    have unread : agent.received + 1 < scenario.count := by
      have notLast := (lastRead buffer nofun).2
      rw [running, count buffer, eq_comm, decide_eq_false_iff_not] at notLast
      omega
    exact ⟨control.held, control.received, ⟨unread, buffer⟩, count,
      fun buffer _ => lastRead buffer nofun, control.noRead⟩
  · rename_i stops
    refine ⟨control.held, control.received, more, ?_, fun buffer _ => lastRead buffer nofun,
      control.noRead⟩
    intro buffer
    have last : agent.received + 1 = scenario.count := by
      have eof := (lastRead buffer nofun).2
      rw [count buffer] at eof
      cases ended : agent.eof with
      | false => exact absurd ⟨buffer, ended⟩ stops
      | true =>
        rw [ended, eq_comm, decide_eq_true_eq] at eof
        exact eof
    refine (count buffer).trans ?_
    simp only [AgentPc.readCount, Agent.goto]
    omega

theorem AgentControl.receive (control : AgentControl config scenario agent)
    (pc : agent.pc = .receive) :
    AgentControl config scenario
      ((agent.receive (scenario.response config agent.received)).goto .send) := by
  have place := control.place
  have before := control.reads
  have lastRead := control.lastRead
  rw [pc] at place before lastRead
  exact ⟨rfl, place, trivial, before, fun buffer _ => lastRead buffer nofun, control.noRead⟩

theorem AgentControl.writeLast (control : AgentControl config scenario agent)
    (pc : agent.pc = .writeLast) (output : Memory) :
    AgentControl config scenario ((writeOutput config output agent).goto .done) := by
  obtain ⟨stdout, outputCurrent, same⟩ := writeOutput_eq config output agent
  have place := control.place
  have before := control.reads
  have lastRead := control.lastRead
  rw [pc] at place before lastRead
  rw [same]
  exact ⟨control.held, control.received, place, before, fun buffer _ => lastRead buffer nofun,
    control.noRead⟩

theorem AgentControl.reads_le (control : AgentControl config scenario agent)
    (buffer : config.inputBuffer = true) : agent.reads.length ≤ scenario.count := by
  have place := control.place
  rw [control.reads buffer]
  cases pc : agent.pc with
  | readFirst => exact Nat.zero_le _
  | send => exact Nat.min_le_right _ _
  | write => exact Nat.min_le_right _ _
  | readNext =>
    rw [pc] at place
    exact place.1.le
  | receive => exact Nat.min_le_right _ _
  | writeLast => exact Nat.le_refl _
  | done => exact Nat.le_refl _

/-- The chunks that were requested are read. -/
theorem AgentControl.requested_le (control : AgentControl config scenario agent)
    (buffer : config.inputBuffer = true) :
    agent.received + agent.pc.sent ≤ agent.reads.length := by
  have received := control.received
  have place := control.place
  have count := control.reads buffer
  cases pc : agent.pc with
  | readFirst =>
    rw [pc] at place
    simp only [AgentPc.sent, AgentPc.Allows] at place ⊢
    omega
  | send =>
    rw [pc] at count
    simp only [AgentPc.sent, AgentPc.readCount] at count ⊢
    omega
  | write =>
    rw [pc] at count place
    simp only [AgentPc.sent, AgentPc.readCount, AgentPc.Allows] at count place ⊢
    omega
  | readNext =>
    rw [pc] at count
    simp only [AgentPc.sent, AgentPc.readCount] at count ⊢
    omega
  | receive =>
    rw [pc] at count place
    simp only [AgentPc.sent, AgentPc.readCount, AgentPc.Allows] at count place ⊢
    omega
  | writeLast =>
    rw [pc] at count
    simp only [AgentPc.sent, AgentPc.readCount] at count ⊢
    omega
  | done =>
    rw [pc] at count
    simp only [AgentPc.sent, AgentPc.readCount] at count ⊢
    omega

theorem Control.agentStep {s s' : System} (control : Control config scenario s)
    (stepped : agentStep config scenario s = some s') : Control config scenario s' := by
  have agent := control.agent
  have asked := control.asked
  have requests := control.requests
  have responses := control.responses
  cases agentStep_moves stepped with
  | readFirst pc =>
    rw [pc] at asked requests
    exact ⟨agent.readFirst pc, control.server, control.order, asked, responses, requests⟩
  | stop pc eof =>
    rw [pc] at asked requests
    exact ⟨(agent.send pc).1 eof, control.server, control.order, asked, responses, requests⟩
  | send pc eof =>
    rw [pc] at asked requests
    obtain ⟨agent', request⟩ := (agent.send pc).2 eof
    refine ⟨agent', control.server, control.order, Nat.le_succ_of_le asked, responses, ?_⟩
    dsimp only
    rw [request, requests]
    exact between_send asked
  | write pc =>
    rw [pc] at asked requests
    have written := agent.write pc s.output
    obtain ⟨stdout, outputCurrent, same⟩ := writeOutput_eq config s.output s.agent
    rw [same] at written ⊢
    split at written
    · rename_i continues
      rw [if_pos continues]
      exact ⟨written, control.server, control.order, asked, responses, requests⟩
    · rename_i stops
      rw [if_neg stops]
      exact ⟨written, control.server, control.order, asked, responses, requests⟩
  | readNext pc =>
    rw [pc] at asked requests
    exact ⟨agent.readNext pc, control.server, control.order, asked, responses, requests⟩
  | receive pc waiting =>
    rw [pc] at asked requests
    obtain ⟨order, first, others⟩ := between_receive (responses.symm.trans waiting)
    rw [first, others]
    exact ⟨agent.receive pc, control.server, order, asked, rfl, requests⟩
  | writeLast pc =>
    rw [pc] at asked requests
    have written := agent.writeLast pc s.output
    obtain ⟨stdout, outputCurrent, same⟩ := writeOutput_eq config s.output s.agent
    rw [same] at written ⊢
    exact ⟨written, control.server, control.order, asked, responses, requests⟩

end Agent

/-! ## Steps of the server -/

section Server

variable {config : Config} {scenario : Scenario} {server : Server}

theorem ServerControl.configure (control : ServerControl config scenario server)
    (pc : server.pc = .configure) {request : ProcessingRequest}
    (requested : config.inputBuffer = true → request = scenario.request config server.round)
    {accepted : Nat} (count : accepted = config.acceptedAt .start server.round) :
    ServerControl config scenario
      { configured config scenario request server with accepted := accepted } := by
  have more : server.round ≠ scenario.count := by
    intro last
    rw [control.ended.mpr last] at pc
    cases pc
  refine ⟨control.rounds, ⟨nofun, fun last => absurd last more⟩, count, ?_, nofun⟩
  intro _
  cases buffer : config.inputBuffer with
  | true =>
    simp only [configured, config.readsInput_eq, buffer, if_true, requested buffer,
      Scenario.request]
    exact ⟨trivial, trivial⟩
  | false =>
    simp only [configured, config.readsInput_eq, buffer, Bool.false_eq_true, if_false]
    exact ⟨trivial, trivial⟩

theorem ServerControl.start (control : ServerControl config scenario server)
    (pc : server.pc = .start) : ServerControl config scenario { server with pc := .running } := by
  have ended := control.ended
  have accepted := control.accepted
  rw [pc] at ended accepted
  exact ⟨control.rounds, ⟨nofun, fun last => nomatch ended.mpr last⟩, accepted,
    fun _ => control.active (.inl pc), nofun⟩

theorem ServerControl.below (control : ServerControl config scenario server)
    (active : server.pc.Active) : server.round < scenario.count := by
  have rounds := control.rounds
  have unfinished : server.round ≠ scenario.count := by
    intro last
    exact active.inRound.2 (control.ended.mpr last)
  omega

theorem ServerControl.finishRun {s : System} (control : ServerControl config scenario s.server)
    (pc : s.server.pc = .running) :
    ServerControl config scenario (finishRun config scenario s).server := by
  have active : s.server.pc.Active := .inr (.inl pc)
  have below := control.below active
  have accepted := control.accepted
  rw [pc] at accepted
  refine ⟨control.rounds, ⟨nofun, fun last => absurd last (Nat.ne_of_lt below)⟩, accepted,
    fun _ => control.active active, ?_⟩
  intro _
  simp only [Driver.finishRun, (control.active active).1, Scenario.output_eq below]

theorem ServerControl.finalizeRound {s : System} (control : ServerControl config scenario s.server)
    (pc : s.server.pc = .finalize) :
    ServerControl config scenario (finalizeRound config s).server := by
  have active : s.server.pc.Active := .inr (.inr pc)
  have below := control.below active
  have last := (control.active active).2
  have accepted := control.accepted
  rw [pc] at accepted
  have positive := scenario.count_pos
  cases ended : s.server.endOfInput with
  | true =>
    rw [ended, eq_comm, decide_eq_true_eq] at last
    simp only [Driver.finalizeRound, ended, if_true]
    refine ⟨below, ⟨fun _ => last, fun _ => rfl⟩, accepted.trans ?_,
      fun active => absurd rfl active.inRound.2, nofun⟩
    simp only [Config.acceptedAt, Nat.succ_ne_zero, if_false]
  | false =>
    rw [ended, eq_comm, decide_eq_false_iff_not] at last
    simp only [Driver.finalizeRound, ended, Bool.false_eq_true, if_false]
    refine ⟨below, ⟨nofun, fun ends => absurd ends last⟩, accepted.trans ?_,
      fun active => absurd rfl active.inRound.1, nofun⟩
    simp only [Config.acceptedAt, Nat.succ_ne_zero, if_false]

/-- The response of a round is the one the agent expects. -/
theorem ServerControl.response {s : System} (control : ServerControl config scenario s.server)
    (pc : s.server.pc = .finalize) :
    (⟨if config.writesOutput then s.server.outputSize else 0, s.server.endOfInput⟩ :
      ProcessingResponse) = scenario.response config s.server.round := by
  have active : s.server.pc.Active := .inr (.inr pc)
  rw [config.writesOutput_eq, control.written pc, (control.active active).2]
  rfl

theorem Control.serverStep {s s' : System} (responds : config.sends false = true)
    (control : Control config scenario s) (stepped : serverStep config scenario s = some s') :
    Control config scenario s' := by
  have server := control.server
  have accepted := control.server.accepted
  have requests := control.requests
  cases serverStep_moves stepped with
  | receive pc receives waiting =>
    rw [pc] at accepted
    obtain ⟨now, next⟩ := config.acceptedAt_of_receives receives
    obtain ⟨asked, first, others⟩ := between_receive (requests.symm.trans waiting)
    rw [accepted, now] at first
    have served : s.server.accepted + 1 = config.acceptedAt .start s.server.round := by
      rw [accepted, now, next]
    exact ⟨control.agent, server.configure pc (fun _ => first) served, control.order, asked,
      control.responses, others⟩
  | proceed pc receives =>
    rw [pc] at accepted
    have noBuffer : ¬ config.inputBuffer = true := by
      intro buffer
      have handshake := config.handshake_of_inputBuffer buffer
      rw [config.receives_of_handshake handshake] at receives
      cases receives
    have served := accepted.trans (config.acceptedAt_of_not_receives receives)
    exact ⟨control.agent, server.configure pc (fun buffer => absurd buffer noBuffer) served,
      control.order, control.asked, control.responses, requests⟩
  | start pc =>
    exact ⟨control.agent, server.start pc, control.order, control.asked, control.responses,
      requests⟩
  | finishRun pc =>
    exact ⟨control.agent, server.finishRun pc, control.order, control.asked, control.responses,
      requests⟩
  | finalize pc =>
    refine ⟨control.agent, server.finalizeRound pc, Nat.le_succ_of_le control.order, control.asked,
      ?_, requests⟩
    simp only [Driver.finalizeRound, config.sends_of_responds responds, if_true,
      server.response pc, control.responses]
    exact between_send control.order

end Server

/-! ## Runs -/

section Run

variable {config : Config} {scenario : Scenario}

theorem Control.initial (config : Config) (scenario : Scenario) (input output : Memory) :
    Control config scenario (initial config input output) := by
  have positive := scenario.count_pos
  refine ⟨?_, ?_, Nat.le_refl 0, Nat.zero_le _, between_self.symm, ?_⟩
  · cases buffer : config.inputBuffer with
    | true =>
      simp only [Driver.initial, buffer, if_true]
      exact ⟨rfl, Nat.zero_le _, ⟨rfl, buffer⟩, fun _ => rfl, fun _ other => absurd rfl other,
        fun _ => ⟨rfl, rfl⟩⟩
    | false =>
      simp only [Driver.initial, buffer, Bool.false_eq_true, if_false]
      have noBuffer : ¬ config.inputBuffer = true := ne_true_of_eq_false buffer
      exact ⟨rfl, Nat.zero_le _, trivial, fun other => absurd other noBuffer,
        fun other => absurd other noBuffer, fun _ => ⟨rfl, rfl⟩⟩
  · refine ⟨Nat.zero_le _, ⟨nofun, fun last => absurd last (Nat.ne_of_lt positive)⟩, ?_,
      fun active => absurd rfl active.inRound.1, nofun⟩
    simp only [Driver.initial, Config.acceptedAt, if_true, ite_self]
  · cases buffer : config.inputBuffer with
    | true =>
      simp only [Driver.initial, buffer, if_true]
      exact between_self.symm
    | false =>
      simp only [Driver.initial, buffer, Bool.false_eq_true, if_false]
      exact between_self.symm

theorem Control.step (responds : config.sends false = true) {s s' : System} {party : Party}
    (control : Control config scenario s) (stepped : step config scenario s party = some s') :
    Control config scenario s' := by
  cases party with
  | agent => exact control.agentStep stepped
  | server => exact control.serverStep responds stepped

end Run

/-! ## Progress -/

/-- The steps to the end of an iteration. -/
def AgentPc.rank : AgentPc → Nat
  | .readFirst => 6
  | .send => 5
  | .write => 4
  | .readNext => 3
  | .receive => 2
  | .writeLast => 1
  | .done => 0

/-- The steps to the end of a round. -/
def ServerPc.rank : ServerPc → Nat
  | .configure => 4
  | .start => 3
  | .running => 2
  | .finalize => 1
  | .done => 0

/-- A bound on the steps that are left. -/
def System.remaining (scenario : Scenario) (s : System) : Nat :=
  (10 * (scenario.count - s.agent.received) + s.agent.pc.rank) +
    (10 * (scenario.count - s.server.round) + s.server.pc.rank)

section Progress

variable {config : Config} {scenario : Scenario} {s s' : System}

theorem Control.agentStep_remaining (control : Control config scenario s)
    (stepped : Driver.agentStep config scenario s = some s') :
    s'.remaining scenario < s.remaining scenario := by
  have place := control.agent.place
  cases agentStep_moves stepped with
  | readFirst pc => simp only [System.remaining, Agent.goto, readInput, pc, AgentPc.rank]; omega
  | stop pc eof => simp only [System.remaining, Agent.goto, pc, AgentPc.rank]; omega
  | send pc eof => simp only [System.remaining, Agent.goto, pc, AgentPc.rank]; omega
  | write pc =>
    obtain ⟨stdout, outputCurrent, same⟩ := writeOutput_eq config s.output s.agent
    rw [same]
    split
    · simp only [System.remaining, Agent.goto, pc, AgentPc.rank]; omega
    · simp only [System.remaining, Agent.goto, pc, AgentPc.rank]; omega
  | readNext pc => simp only [System.remaining, Agent.goto, readInput, pc, AgentPc.rank]; omega
  | receive pc waiting =>
    rw [pc] at place
    simp only [AgentPc.Allows] at place
    simp only [System.remaining, Agent.goto, Agent.receive, pc, AgentPc.rank]
    omega
  | writeLast pc =>
    obtain ⟨stdout, outputCurrent, same⟩ := writeOutput_eq config s.output s.agent
    rw [same]
    simp only [System.remaining, Agent.goto, pc, AgentPc.rank]
    omega

theorem Control.serverStep_remaining (control : Control config scenario s)
    (stepped : Driver.serverStep config scenario s = some s') :
    s'.remaining scenario < s.remaining scenario := by
  cases serverStep_moves stepped with
  | receive pc receives waiting => simp only [System.remaining, configured, pc, ServerPc.rank]; omega
  | proceed pc receives => simp only [System.remaining, configured, pc, ServerPc.rank]; omega
  | start pc => simp only [System.remaining, pc, ServerPc.rank]; omega
  | finishRun pc => simp only [System.remaining, finishRun, pc, ServerPc.rank]; omega
  | finalize pc =>
    have below := control.server.below (.inr (.inr pc))
    simp only [System.remaining, finalizeRound, pc]
    split
    · simp only [ServerPc.rank]; omega
    · simp only [ServerPc.rank]; omega

/-- Every step brings the system closer to its end. -/
theorem Control.remaining_lt (control : Control config scenario s) {party : Party}
    (stepped : Driver.step config scenario s party = some s') :
    s'.remaining scenario < s.remaining scenario := by
  cases party with
  | agent => exact control.agentStep_remaining stepped
  | server => exact control.serverStep_remaining stepped

/-- The agent waits for a response only. -/
theorem agentStep_blocked (blocked : Driver.agentStep config scenario s = none) :
    s.agent.pc = .done ∨ s.agent.pc = .receive ∧ s.responses = [] := by
  unfold Driver.agentStep at blocked
  cases pc : s.agent.pc with
  | done => exact .inl rfl
  | receive =>
    rw [pc] at blocked
    cases waiting : s.responses with
    | nil => exact .inr ⟨rfl, rfl⟩
    | cons response responses =>
      rw [waiting] at blocked
      cases blocked
  | send =>
    rw [pc] at blocked
    dsimp only at blocked
    split at blocked
    · cases blocked
    · cases blocked
  | readFirst | write | readNext | writeLast =>
    rw [pc] at blocked
    cases blocked

/-- The server waits for a request only. -/
theorem serverStep_blocked (blocked : Driver.serverStep config scenario s = none) :
    s.server.pc = .done ∨ s.server.pc = .configure ∧ s.requests = [] ∧
      config.receives (s.server.round = 0) = true := by
  unfold Driver.serverStep at blocked
  cases pc : s.server.pc with
  | done => exact .inl rfl
  | configure =>
    rw [pc] at blocked
    dsimp only at blocked
    cases receives : config.receives (s.server.round = 0) with
    | true =>
      rw [receives, if_pos rfl] at blocked
      cases waiting : s.requests with
      | nil => exact .inr ⟨rfl, rfl, rfl⟩
      | cons request requests =>
        rw [waiting] at blocked
        cases blocked
    | false =>
      rw [receives, if_neg Bool.false_ne_true] at blocked
      cases blocked
  | start | running | finalize =>
    rw [pc] at blocked
    cases blocked

/-- Where the server waits, the agent has sent no request for its round. -/
theorem Control.round_of_blocked (control : Control config scenario s)
    (blocked : Driver.serverStep config scenario s = none) :
    s.server.round = scenario.count ∨ s.server.round = s.agent.received + s.agent.pc.sent := by
  rcases serverStep_blocked blocked with pc | ⟨pc, waiting, receives⟩
  · exact .inl (control.server.ended.mp pc)
  · right
    have accepted := control.server.accepted
    rw [pc, (config.acceptedAt_of_receives receives).1] at accepted
    have asked := control.asked
    have none := congrArg List.length (control.requests.symm.trans waiting)
    rw [between_length, List.length_nil] at none
    omega

/-- Where the agent waits, the server has not finished the round. -/
theorem Control.received_of_blocked (control : Control config scenario s)
    (blocked : Driver.agentStep config scenario s = none) :
    s.agent.pc = .done ∨ s.agent.pc = .receive ∧ s.agent.received = s.server.round := by
  rcases agentStep_blocked blocked with pc | ⟨pc, waiting⟩
  · exact .inl pc
  · right
    have order := control.order
    have none := congrArg List.length (control.responses.symm.trans waiting)
    rw [between_length, List.length_nil] at none
    exact ⟨pc, by omega⟩

/-- The parties never wait for each other: if none can take a step, both have finished. -/
theorem Control.finished_of_blocked (control : Control config scenario s)
    (blocked : ∀ party, Driver.step config scenario s party = none) :
    s.agent.pc = .done ∧ s.server.pc = .done := by
  have agent := control.received_of_blocked (blocked .agent)
  have server := control.round_of_blocked (blocked .server)
  have order := control.order
  have rounds := control.server.rounds
  have place := control.agent.place
  rcases agent with pc | ⟨pc, received⟩
  · rw [pc] at place
    simp only [AgentPc.Allows] at place
    exact ⟨pc, control.server.ended.mpr (by omega)⟩
  · rw [pc] at place server
    simp only [AgentPc.Allows] at place
    simp only [AgentPc.sent] at server
    omega

end Progress

end MetalFs.Driver
