import MetalFs.Driver.ProcessingInvariant

/-!
# The input buffer

While the server works on one chunk of input the agent already reads the next one
into the other half.  `InputControl` says which chunks lie in the buffer; with it, the
server takes exactly the chunks the agent has read, and the agent never writes to a
half the server has not finished reading.
-/

namespace MetalFs.Driver

open Runs Fifo DoubleBuffer

/-- The chunk the agent reads for a round. -/
def Scenario.chunk (scenario : Scenario) (round : Nat) : Chunk :=
  ⟨round.bodd, scenario.input round, decide (round + 1 = scenario.count)⟩

/-- What the input buffer holds. -/
structure InputControl (scenario : Scenario) (s : System) : Prop where
  agentHalf : s.agent.inputCurrent = s.agent.reads.length.bodd
  serverHalf : s.server.inputCurrent = s.server.round.bodd
  reads : s.agent.reads = between scenario.chunk 0 s.agent.reads.length
  processed : s.server.processed = between scenario.chunk 0 s.server.taken
  holds : Holds s.input scenario.input s.server.taken s.agent.reads.length

/-- The agent writes to its current half of the input buffer. -/
def Agent.Reading (agent : Agent) : Prop := agent.pc = .readFirst ∨ agent.pc = .readNext

/-! ## Steps of the agent -/

section

variable {config : Config} {scenario : Scenario} {s s' : System}

theorem readInput_chunk {agent : Agent} (half : agent.inputCurrent = agent.reads.length.bodd) :
    (readInput scenario agent).reads = agent.reads ++ [scenario.chunk agent.reads.length] := by
  simp only [readInput, Scenario.chunk, half]

/-- Reading a chunk while at most one is waiting. -/
theorem InputControl.read (inputs : InputControl scenario s)
    (room : s.agent.reads.length ≤ s.server.taken + 1) (pc : AgentPc) :
    InputControl scenario { s with
      agent := (readInput scenario s.agent).goto pc
      input := inputRead scenario s.agent s.input } := by
  have length := @readInput_length scenario s.agent
  refine ⟨?_, inputs.serverHalf, ?_, inputs.processed, ?_⟩
  · have toggled : (readInput scenario s.agent).inputCurrent = !s.agent.inputCurrent := rfl
    simp only [Agent.goto, length, toggled, inputs.agentHalf, Nat.bodd_succ]
  · dsimp only [Agent.goto]
    rw [length, readInput_chunk inputs.agentHalf, ← between_send (Nat.zero_le _), ← inputs.reads]
  · simp only [Agent.goto, length, inputRead, inputs.agentHalf]
    exact inputs.holds.fill room

theorem Agent.Reading.room (buffer : config.inputBuffer = true)
    (control : Control config scenario s) (reading : s.agent.Reading) :
    s.agent.reads.length ≤ s.server.round + 1 := by
  have reads := control.agent.reads buffer
  have order := control.order
  rcases reading with pc | pc
  · rw [pc] at reads
    simp only [AgentPc.readCount] at reads
    omega
  · rw [pc] at reads
    simp only [AgentPc.readCount] at reads
    omega

theorem InputControl.agentStep (buffer : config.inputBuffer = true)
    (control : Control config scenario s) (inputs : InputControl scenario s)
    (stepped : agentStep config scenario s = some s') : InputControl scenario s' := by
  have room : s.agent.Reading → s.agent.reads.length ≤ s.server.taken + 1 := by
    intro reading
    have := reading.room buffer control
    have := s.server.round_le_taken
    omega
  cases agentStep_moves stepped with
  | readFirst pc => exact inputs.read (room (.inl pc)) .send
  | stop pc eof => exact ⟨inputs.1, inputs.2, inputs.3, inputs.4, inputs.5⟩
  | send pc eof => exact ⟨inputs.1, inputs.2, inputs.3, inputs.4, inputs.5⟩
  | write pc =>
    obtain ⟨stdout, outputCurrent, same⟩ := writeOutput_eq config s.output s.agent
    rw [same]
    exact ⟨inputs.1, inputs.2, inputs.3, inputs.4, inputs.5⟩
  | readNext pc => exact inputs.read (room (.inr pc)) .receive
  | receive pc waiting => exact ⟨inputs.1, inputs.2, inputs.3, inputs.4, inputs.5⟩
  | writeLast pc =>
    obtain ⟨stdout, outputCurrent, same⟩ := writeOutput_eq config s.output s.agent
    rw [same]
    exact ⟨inputs.1, inputs.2, inputs.3, inputs.4, inputs.5⟩

/-! ## Steps of the server -/

/-- The input of a round that is being worked on. -/
theorem InputControl.current (buffer : config.inputBuffer = true)
    (control : Control config scenario s) (inputs : InputControl scenario s)
    (active : s.server.pc.Active) (pc : s.server.pc ≠ .finalize) :
    s.server.round < s.agent.reads.length ∧
      (s.input s.server.inputCurrent).take s.server.size = scenario.input s.server.round := by
  have handshake := config.handshake_of_inputBuffer buffer
  have accepted : s.server.accepted = s.server.round + 1 := by
    rw [control.server.accepted, Config.acceptedAt_of_active _ active, handshake, if_pos rfl]
  have asked := control.asked
  have requested := control.agent.requested_le buffer
  have read : s.server.round < s.agent.reads.length := by omega
  have held := inputs.holds s.server.round (Server.taken_of_not_finalize pc).le read
  rw [inputs.serverHalf, (control.server.active active).1]
  exact ⟨read, held⟩

theorem InputControl.serverStep (buffer : config.inputBuffer = true)
    (control : Control config scenario s) (inputs : InputControl scenario s)
    (stepped : serverStep config scenario s = some s') : InputControl scenario s' := by
  have processed := inputs.processed
  have holds := inputs.holds
  cases serverStep_moves stepped with
  | receive pc receives waiting =>
    rw [Server.taken_of_not_finalize (by rw [pc]; decide)] at processed holds
    exact ⟨inputs.agentHalf, inputs.serverHalf, inputs.reads, processed, holds⟩
  | proceed pc receives =>
    rw [Server.taken_of_not_finalize (by rw [pc]; decide)] at processed holds
    exact ⟨inputs.agentHalf, inputs.serverHalf, inputs.reads, processed, holds⟩
  | start pc =>
    rw [Server.taken_of_not_finalize (by rw [pc]; decide)] at processed holds
    exact ⟨inputs.agentHalf, inputs.serverHalf, inputs.reads, processed, holds⟩
  | finishRun pc =>
    have active : s.server.pc.Active := .inr (.inl pc)
    have below := control.server.below active
    obtain ⟨size, ended⟩ := control.server.active active
    obtain ⟨read, current⟩ := inputs.current buffer control active (by rw [pc]; decide)
    rw [Server.taken_of_not_finalize (by rw [pc]; decide)] at processed holds
    have chunk : (⟨s.server.inputCurrent,
        (s.input s.server.inputCurrent).take (s.server.size % 2 ^ 32), s.server.endOfInput⟩ :
        Chunk) = scenario.chunk s.server.round := by
      have whole : s.server.size % 2 ^ 32 = s.server.size := by
        rw [size]
        exact Scenario.input_small below
      rw [whole, current, ended, inputs.serverHalf]
      rfl
    refine ⟨inputs.agentHalf, inputs.serverHalf, inputs.reads, ?_, holds.mono (Nat.le_succ _)⟩
    simp only [finishRun, config.readsInput_eq, buffer, if_true, Server.taken, chunk, processed]
    exact between_send (Nat.zero_le _)
  | finalize pc =>
    rw [Server.taken_of_finalize pc] at processed holds
    have taken := (finalizeRound_idle config s).2
    refine ⟨inputs.agentHalf, ?_, inputs.reads, taken ▸ processed, taken ▸ holds⟩
    simp only [finalizeRound, config.readsInput_eq, buffer, if_true, inputs.serverHalf,
      Nat.bodd_succ]

/-! ## Runs -/

theorem InputControl.initial (scenario : Scenario) (config : Config) (input output : Memory) :
    InputControl scenario (initial config input output) :=
  ⟨Nat.bodd_zero.symm, Nat.bodd_zero.symm, between_self.symm, between_self.symm, Holds.empty⟩

theorem InputControl.step (buffer : config.inputBuffer = true) {party : Party}
    (control : Control config scenario s) (inputs : InputControl scenario s)
    (stepped : step config scenario s party = some s') : InputControl scenario s' := by
  cases party with
  | agent => exact inputs.agentStep buffer control stepped
  | server => exact inputs.serverStep buffer control stepped

/-- The use of the input buffer in a state.  Every chunk read is the one that stands
next in the input; the server has processed the first ones of them, one in each
round, and all of them in the end; it works on the chunk of its round; and the agent
does not write to a half with a chunk that is not yet processed. -/
structure InputSafe (scenario : Scenario) (s : System) : Prop where
  reads : ∀ k chunk, s.agent.reads[k]? = some chunk →
    chunk.bytes = scenario.input k ∧ chunk.eof = decide (k + 1 = scenario.count)
  processed : s.server.processed <+: s.agent.reads
  rounds : s.server.processed.length = s.server.taken
  finished : s.server.pc = .done →
    s.server.processed = s.agent.reads ∧ s.agent.reads.length = scenario.count
  running : s.server.pc = .running →
    ∃ chunk, s.agent.reads[s.server.round]? = some chunk ∧
      chunk.half = s.server.inputCurrent ∧
      chunk.bytes = (s.input s.server.inputCurrent).take s.server.size ∧
      chunk.bytes.length = s.server.size ∧
      chunk.eof = s.server.endOfInput
  reading : s.agent.Reading → ∀ k chunk, s.server.processed.length ≤ k →
    s.agent.reads[k]? = some chunk → chunk.half ≠ s.agent.inputCurrent
  apart : s.agent.Reading → s.server.pc = .running →
    s.server.inputCurrent ≠ s.agent.inputCurrent

/-- The server has taken a request for each round, if it waits for one each time. -/
theorem Server.taken_le_acceptedAt (server : Server) (receives : config.receives false = true) :
    server.taken ≤ config.acceptedAt server.pc server.round := by
  have waits : ∀ accepted : Nat, (if config.receives false then accepted else 1) = accepted :=
    fun accepted => if_pos receives
  by_cases finalized : server.pc = .finalize
  · rw [server.taken_of_finalize finalized, finalized]
    exact (waits (server.round + 1)).ge
  · rw [server.taken_of_not_finalize finalized]
    cases server.pc with
    | configure | done => exact (if_pos receives).ge
    | start | running | finalize =>
      exact (Nat.le_succ _).trans (waits (server.round + 1)).ge

/-- The chunks that are processed were read. -/
theorem Control.taken_le_reads (buffer : config.inputBuffer = true)
    (control : Control config scenario s) : s.server.taken ≤ s.agent.reads.length := by
  have asked := control.asked
  have requested := control.agent.requested_le buffer
  have accepted := control.server.accepted
  have handshake := config.handshake_of_inputBuffer buffer
  have served := s.server.taken_le_acceptedAt handshake
  omega

theorem InputControl.reading (buffer : config.inputBuffer = true)
    (control : Control config scenario s) (inputs : InputControl scenario s)
    (reading : s.agent.Reading) {k : Nat} {chunk : Chunk} (waiting : s.server.taken ≤ k)
    (found : s.agent.reads[k]? = some chunk) : chunk.half ≠ s.agent.inputCurrent := by
  have room := reading.room buffer control
  have rounds := s.server.round_le_taken
  rw [inputs.reads] at found
  obtain ⟨below, same⟩ := between_getElem_eq_some found
  have last : s.agent.reads.length = k + 1 := by omega
  rw [same, inputs.agentHalf, last, Nat.bodd_succ]
  exact Bool.self_ne_not _

theorem InputControl.running (buffer : config.inputBuffer = true)
    (control : Control config scenario s) (inputs : InputControl scenario s)
    (pc : s.server.pc = .running) :
    s.agent.reads[s.server.round]? = some (scenario.chunk s.server.round) ∧
      scenario.input s.server.round = (s.input s.server.inputCurrent).take s.server.size ∧
      (scenario.input s.server.round).length = s.server.size ∧
      decide (s.server.round + 1 = scenario.count) = s.server.endOfInput := by
  have active : s.server.pc.Active := .inr (.inl pc)
  obtain ⟨size, ended⟩ := control.server.active active
  obtain ⟨read, current⟩ := inputs.current buffer control active (by rw [pc]; decide)
  refine ⟨?_, current.symm, size.symm, ended.symm⟩
  rw [inputs.reads]
  exact between_getElem read

theorem InputControl.safe (buffer : config.inputBuffer = true)
    (control : Control config scenario s) (inputs : InputControl scenario s) :
    InputSafe scenario s := by
  have taken := control.taken_le_reads buffer
  have length : s.server.processed.length = s.server.taken := by
    rw [inputs.processed, between_length, Nat.sub_zero]
  have processed : s.server.processed <+: s.agent.reads := by
    refine ⟨between scenario.chunk s.server.taken s.agent.reads.length, ?_⟩
    rw [inputs.processed, inputs.reads, between_length, Nat.sub_zero]
    exact between_append (Nat.zero_le _) taken
  refine ⟨?_, processed, length, ?_, ?_, ?_, ?_⟩
  · intro k chunk found
    rw [inputs.reads] at found
    rw [(between_getElem_eq_some found).2]
    exact ⟨rfl, rfl⟩
  · intro pc
    have all := control.server.ended.mp pc
    have rounds := s.server.round_le_taken
    have reads := control.agent.reads_le buffer
    exact ⟨processed.eq_of_length_le (by omega), by omega⟩
  · intro pc
    obtain ⟨found, current, size, ended⟩ := inputs.running buffer control pc
    exact ⟨_, found, inputs.serverHalf.symm, current, size, ended⟩
  · intro reading k chunk waiting found
    exact inputs.reading buffer control reading (length ▸ waiting) found
  · intro reading pc
    obtain ⟨found, -⟩ := inputs.running buffer control pc
    have notFinal : s.server.pc ≠ .finalize := by rw [pc]; decide
    have waiting := Server.taken_of_not_finalize notFinal
    rw [inputs.serverHalf]
    exact inputs.reading buffer control reading waiting.le found

/-- In every run the server processes the chunks the agent has read, and the agent
never writes to a half that is not yet processed. -/
theorem input_buffer_safe (config : Config) (scenario : Scenario)
    (buffer : config.inputBuffer = true) (input output : Memory) (schedule : List Party)
    (reached : run (step config scenario) (initial config input output) schedule = some s) :
    InputSafe scenario s := by
  have kept : Control config scenario s ∧ InputControl scenario s := by
    apply inv_of_steps _ _ reached
    · intro s party s' holds stepped
      exact ⟨holds.1.step (config.responds_of_inputBuffer buffer) stepped,
        holds.2.step buffer holds.1 stepped⟩
    · exact ⟨Control.initial config scenario input output,
        InputControl.initial scenario config input output⟩
  exact kept.2.safe buffer kept.1

end

/-- An operator between standard input and standard output. -/
def filterConfig : Config := .single true true

/-- Two chunks, each with an output. -/
def twoRounds : Scenario where
  rounds := [([byte 1], [byte 2]), ([byte 3], [byte 4])]
  nonempty := by decide
  idle := by decide
  bounded := by decide

/-- The agent reads the second chunk while the server works on the first one. -/
theorem input_buffer_safe_ahead :
    ∃ s, run (step filterConfig twoRounds) (initial filterConfig (fun _ => []) fun _ => [])
        [.agent, .agent, .server, .server, .agent] = some s ∧
      s.agent.pc = .readNext ∧ s.server.pc = .running ∧ InputSafe twoRounds s :=
  ⟨_, rfl, rfl, rfl, input_buffer_safe filterConfig twoRounds rfl (fun _ => []) (fun _ => [])
    [.agent, .agent, .server, .server, .agent] rfl⟩

end MetalFs.Driver
