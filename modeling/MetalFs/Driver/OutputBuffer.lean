import MetalFs.Driver.ProcessingInvariant

/-!
# The output buffer

The server changes the half of the output buffer after every round, the agent after
every round that had an output.  `OutputControl` says which halves are current.  The
agent copies the output of a round only after it has sent the next request, and a
single stage without an input buffer does not wait for that request; so the server
may write to the half the agent copies from.  `output_safe_iff_halvesApart` says for
which rounds it never does.
-/

namespace MetalFs.Driver

open Runs Fifo

/-! ## The halves -/

/-- The rounds before `round` that have an output. -/
def Scenario.outputsBefore (scenario : Scenario) : Nat → Nat
  | 0 => 0
  | round + 1 => scenario.outputsBefore round + if scenario.output round = [] then 0 else 1

/-- The agent has not yet written the output of the response it holds. -/
def AgentPc.holding : AgentPc → Bool
  | .readFirst | .send | .write | .writeLast => true
  | .readNext | .receive | .done => false

/-- The rounds whose output the agent has copied. -/
def Agent.copied (agent : Agent) : Nat :=
  if agent.pc.holding then agent.received - 1 else agent.received

/-- The current halves of both parties. -/
structure OutputControl (scenario : Scenario) (s : System) : Prop where
  agentHalf : s.agent.outputCurrent = (scenario.outputsBefore s.agent.copied).bodd
  serverHalf : s.server.outputCurrent = s.server.round.bodd

section

variable {config : Config} {scenario : Scenario} {s s' : System}

theorem writeOutput_of_buffer (buffer : config.outputBuffer = true) (output : Memory)
    (agent : Agent) :
    writeOutput config output agent =
      { agent with
        stdout := agent.stdout ++ (output agent.outputCurrent).take agent.processingResponse.size
        outputCurrent := if agent.processingResponse.size = 0 then agent.outputCurrent
          else !agent.outputCurrent } := by
  unfold writeOutput
  split
  · rename_i written
    rw [if_neg written.1]
  · rename_i skipped
    have zero : agent.processingResponse.size = 0 := by
      rcases Nat.eq_zero_or_pos agent.processingResponse.size with zero | positive
      · exact zero
      · exact absurd ⟨positive.ne', buffer⟩ skipped
    rw [zero, if_pos rfl, List.take_zero, List.append_nil]

/-- Writing the output of the response the agent holds. -/
theorem AgentControl.writeOutput_half {agent : Agent} (buffer : config.outputBuffer = true)
    (control : AgentControl config scenario agent) (output : Memory)
    (half : agent.outputCurrent = (scenario.outputsBefore (agent.received - 1)).bodd) :
    (writeOutput config output agent).outputCurrent =
      (scenario.outputsBefore agent.received).bodd := by
  rw [writeOutput_of_buffer buffer, control.held]
  dsimp only
  cases received : agent.received with
  | zero =>
    rw [received] at half
    exact half
  | succ round =>
    rw [received, Nat.add_sub_cancel] at half
    simp only [Scenario.lastResponse, Scenario.response, buffer, if_true, List.length_eq_zero_iff,
      Scenario.outputsBefore]
    split
    · rw [half, Nat.add_zero]
    · rw [half, Nat.bodd_succ]

theorem OutputControl.agentStep (buffer : config.outputBuffer = true)
    (control : Control config scenario s) (outputs : OutputControl scenario s)
    (stepped : agentStep config scenario s = some s') : OutputControl scenario s' := by
  have half := outputs.agentHalf
  unfold Agent.copied at half
  cases agentStep_moves stepped with
  | readFirst pc =>
    rw [pc] at half
    exact ⟨half, outputs.serverHalf⟩
  | stop pc eof =>
    rw [pc] at half
    exact ⟨half, outputs.serverHalf⟩
  | send pc eof =>
    rw [pc] at half
    exact ⟨half, outputs.serverHalf⟩
  | write pc =>
    rw [pc] at half
    have written := control.agent.writeOutput_half buffer s.output half
    refine ⟨written.trans ?_, outputs.serverHalf⟩
    obtain ⟨stdout, outputCurrent, same⟩ := writeOutput_eq config s.output s.agent
    rw [same]
    split
    · rfl
    · rfl
  | readNext pc =>
    rw [pc] at half
    exact ⟨half, outputs.serverHalf⟩
  | receive pc waiting =>
    rw [pc] at half
    exact ⟨half, outputs.serverHalf⟩
  | writeLast pc =>
    rw [pc] at half
    have written := control.agent.writeOutput_half buffer s.output half
    refine ⟨written.trans ?_, outputs.serverHalf⟩
    obtain ⟨stdout, outputCurrent, same⟩ := writeOutput_eq config s.output s.agent
    rw [same]
    rfl

theorem OutputControl.serverStep (buffer : config.outputBuffer = true)
    (outputs : OutputControl scenario s) (stepped : serverStep config scenario s = some s') :
    OutputControl scenario s' := by
  cases serverStep_moves stepped with
  | receive pc receives waiting => exact ⟨outputs.agentHalf, outputs.serverHalf⟩
  | proceed pc receives => exact ⟨outputs.agentHalf, outputs.serverHalf⟩
  | start pc => exact ⟨outputs.agentHalf, outputs.serverHalf⟩
  | finishRun pc => exact ⟨outputs.agentHalf, outputs.serverHalf⟩
  | finalize pc =>
    refine ⟨outputs.agentHalf, ?_⟩
    simp only [finalizeRound, config.writesOutput_eq, buffer, if_true, outputs.serverHalf,
      Nat.bodd_succ]

theorem OutputControl.initial (scenario : Scenario) (config : Config) (input output : Memory) :
    OutputControl scenario (initial config input output) := by
  refine ⟨?_, Nat.bodd_zero.symm⟩
  have none : (Driver.initial config input output).agent.copied = 0 := by
    unfold Agent.copied
    exact ite_self _
  rw [none]
  exact Nat.bodd_zero.symm

theorem OutputControl.step (buffer : config.outputBuffer = true) {party : Party}
    (control : Control config scenario s) (outputs : OutputControl scenario s)
    (stepped : step config scenario s party = some s') : OutputControl scenario s' := by
  cases party with
  | agent => exact outputs.agentStep buffer control stepped
  | server => exact outputs.serverStep buffer stepped

end

/-! ## The output that is not yet copied -/

/-- The responses whose output the agent has not yet copied, oldest first. -/
def System.pendingResponses (s : System) : List ProcessingResponse :=
  if s.agent.pc.holding then s.agent.processingResponse :: s.responses else s.responses

/-- The halves the agent will copy from for `responses`. -/
def copyHalves : Bool → List ProcessingResponse → List Bool
  | _, [] => []
  | half, response :: responses =>
    if response.size = 0 then copyHalves half responses
    else half :: copyHalves (!half) responses

/-- While the server writes an output, the agent is done with the half it goes to. -/
def OutputSafe (scenario : Scenario) (s : System) : Prop :=
  s.server.pc = .running → scenario.output s.server.round ≠ [] →
    s.server.outputCurrent ∉ copyHalves s.agent.outputCurrent s.pendingResponses

section

variable {config : Config} {scenario : Scenario} {s s' : System}

theorem mem_copyHalves (buffer : config.outputBuffer = true) {half : Bool} {lo hi : Nat} :
    half ∈ copyHalves (scenario.outputsBefore lo).bodd (between (scenario.response config) lo hi) ↔
      ∃ j, lo ≤ j ∧ j < hi ∧ scenario.output j ≠ [] ∧ half = (scenario.outputsBefore j).bodd := by
  induction count : hi - lo generalizing lo with
  | zero =>
    have empty : between (scenario.response config) lo hi = [] := by
      rw [between, count]
      rfl
    rw [empty]
    constructor
    · intro member
      cases member
    · intro found
      obtain ⟨j, above, below, -⟩ := found
      omega
  | succ count ih =>
    have rest := @ih (lo + 1) (by omega)
    have nonempty : lo < hi := by omega
    have size : (scenario.response config lo).size = 0 ↔ scenario.output lo = [] := by
      simp only [Scenario.response, buffer, if_true, List.length_eq_zero_iff]
    rw [between_cons nonempty, copyHalves]
    rcases Classical.em (scenario.output lo = []) with empty | output
    · rw [if_pos (size.mpr empty)]
      rw [Scenario.outputsBefore, if_pos empty, Nat.add_zero] at rest
      rw [rest]
      constructor
      · intro found
        obtain ⟨j, above, found⟩ := found
        exact ⟨j, by omega, found⟩
      · intro found
        obtain ⟨j, above, below, output, same⟩ := found
        have other : j ≠ lo := fun same => output (same ▸ empty)
        exact ⟨j, by omega, below, output, same⟩
    · rw [if_neg (mt size.mp output), List.mem_cons]
      rw [Scenario.outputsBefore, if_neg output, Nat.bodd_succ] at rest
      rw [rest]
      constructor
      · intro found
        rcases found with first | ⟨j, above, found⟩
        · exact ⟨lo, le_refl lo, nonempty, output, first⟩
        · exact ⟨j, by omega, found⟩
      · intro found
        obtain ⟨j, above, found⟩ := found
        rcases Nat.eq_or_lt_of_le above with first | later
        · exact .inl (first ▸ found.2.2)
        · exact .inr ⟨j, later, found⟩

theorem Control.copyHalves_eq (control : Control config scenario s) (half : Bool) :
    copyHalves half s.pendingResponses =
      copyHalves half (between (scenario.response config) s.agent.copied s.server.round) := by
  have order := control.order
  unfold System.pendingResponses Agent.copied
  rw [control.responses, control.agent.held]
  split
  · cases received : s.agent.received with
    | zero =>
      rw [Scenario.lastResponse, copyHalves, if_pos rfl]
    | succ round =>
      have more : round < s.server.round := by omega
      rw [Nat.add_sub_cancel, Scenario.lastResponse, ← between_cons more]
  · rfl

/-- The halves the agent will copy from. -/
theorem OutputControl.mem_pending (buffer : config.outputBuffer = true)
    (control : Control config scenario s) (outputs : OutputControl scenario s) {half : Bool} :
    half ∈ copyHalves s.agent.outputCurrent s.pendingResponses ↔
      ∃ j, s.agent.copied ≤ j ∧ j < s.server.round ∧ scenario.output j ≠ [] ∧
        half = (scenario.outputsBefore j).bodd := by
  rw [control.copyHalves_eq, outputs.agentHalf]
  exact mem_copyHalves buffer

/-! ## When the output is safe -/

/-- No round writes its output to a half from which the output of an earlier round is
copied.  If the server waits for a request in every round, only the round before it
can still be copied. -/
def HalvesApart (config : Config) (scenario : Scenario) : Prop :=
  ∀ j k, j < k → k < scenario.count → (config.receives false = true → k = j + 1) →
    scenario.output j ≠ [] → scenario.output k ≠ [] →
      (scenario.outputsBefore j).bodd ≠ k.bodd

theorem Agent.received_le_copied (agent : Agent) : agent.received ≤ agent.copied + 1 := by
  unfold Agent.copied
  split <;> omega

/-- With a request in every round, the agent is at most one round behind. -/
theorem Control.handshake_copied (control : Control config scenario s)
    (handshake : config.receives false = true) (active : s.server.pc.Active) :
    s.server.round ≤ s.agent.copied + 1 := by
  have accepted := control.server.accepted
  rw [Config.acceptedAt_of_active _ active, handshake, if_pos rfl] at accepted
  have asked := control.asked
  have sent : s.agent.pc.sent ≤ 1 := by
    cases s.agent.pc <;> decide
  have received := s.agent.received_le_copied
  omega

theorem OutputControl.safe (buffer : config.outputBuffer = true)
    (apart : HalvesApart config scenario) (control : Control config scenario s)
    (outputs : OutputControl scenario s) : OutputSafe scenario s := by
  intro pc output pending
  have active : s.server.pc.Active := .inr (.inl pc)
  obtain ⟨j, uncopied, earlier, written, same⟩ := (outputs.mem_pending buffer control).mp pending
  refine apart j s.server.round earlier (control.server.below active) ?_ written output ?_
  · intro handshake
    have := control.handshake_copied handshake active
    omega
  · rw [← same, outputs.serverHalf]

/-! ## A run in which it is not -/

/-- The agent stops before it copies the output of round `j`, the server while it
writes the one of round `k`. -/
def Admits (j k : Nat) (s : System) : Party → Prop
  | .agent => ¬ (s.agent.pc = .write ∧ s.agent.received = j + 1)
  | .server => ¬ (s.server.pc = .running ∧ s.server.round = k)

/-- Neither party has gone further than that. -/
structure Behind (j k : Nat) (s : System) : Prop where
  received : s.agent.received ≤ j + 1
  agent : s.agent.received = j + 1 → s.agent.pc = .send ∨ s.agent.pc = .write
  round : s.server.round ≤ k
  server : s.server.round = k →
    s.server.pc = .configure ∨ s.server.pc = .start ∨ s.server.pc = .running

variable {j k : Nat}

theorem Behind.agentStep (earlier : j < k) (below : k < scenario.count)
    (control : Control config scenario s) (behind : Behind j k s) (admits : Admits j k s .agent)
    (stepped : agentStep config scenario s = some s') : Behind j k s' := by
  have received := behind.received
  have unfinished : s.agent.received ≠ scenario.count := by omega
  have place := control.agent.place
  have early : s.agent.pc ≠ .send → s.agent.pc ≠ .write → s.agent.received ≠ j + 1 := by
    intro notSend notWrite last
    rcases behind.agent last with pc | pc
    · exact notSend pc
    · exact notWrite pc
  cases agentStep_moves stepped with
  | readFirst pc => exact ⟨received, fun _ => .inl rfl, behind.round, behind.server⟩
  | stop pc eof =>
    rw [control.agent.held, Scenario.lastResponse_eof config control.agent.received] at eof
    exact absurd eof unfinished
  | send pc eof => exact ⟨received, fun _ => .inr rfl, behind.round, behind.server⟩
  | write pc =>
    have notLast : s.agent.received ≠ j + 1 := fun last => admits ⟨pc, last⟩
    obtain ⟨stdout, outputCurrent, same⟩ := writeOutput_eq config s.output s.agent
    rw [same]
    exact ⟨received, fun last => absurd last notLast, behind.round, behind.server⟩
  | readNext pc =>
    have notLast := early (by rw [pc]; decide) (by rw [pc]; decide)
    exact ⟨received, fun last => absurd last notLast, behind.round, behind.server⟩
  | receive pc waiting =>
    have notLast := early (by rw [pc]; decide) (by rw [pc]; decide)
    have next : s.agent.received + 1 ≤ j + 1 := by omega
    exact ⟨next, fun _ => .inl rfl, behind.round, behind.server⟩
  | writeLast pc =>
    rw [pc] at place
    exact absurd place unfinished

theorem Behind.serverStep (below : k < scenario.count) (control : Control config scenario s)
    (behind : Behind j k s) (admits : Admits j k s .server)
    (stepped : serverStep config scenario s = some s') : Behind j k s' := by
  have round := behind.round
  cases serverStep_moves stepped with
  | receive pc receives waiting =>
    exact ⟨behind.received, behind.agent, round, fun _ => .inr (.inl rfl)⟩
  | proceed pc receives => exact ⟨behind.received, behind.agent, round, fun _ => .inr (.inl rfl)⟩
  | start pc => exact ⟨behind.received, behind.agent, round, fun _ => .inr (.inr rfl)⟩
  | finishRun pc =>
    have notLast : s.server.round ≠ k := fun last => admits ⟨pc, last⟩
    exact ⟨behind.received, behind.agent, round, fun last => absurd last notLast⟩
  | finalize pc =>
    have notLast : s.server.round ≠ k := by
      intro last
      rcases behind.server last with other | other | other
      · rw [pc] at other
        cases other
      · rw [pc] at other
        cases other
      · rw [pc] at other
        cases other
    have next : s.server.round + 1 ≤ k := by omega
    have more : s.server.endOfInput = false := by
      rw [(control.server.active (.inr (.inr pc))).2]
      exact decide_eq_false (by omega)
    refine ⟨behind.received, behind.agent, next, fun _ => .inl ?_⟩
    simp only [finalizeRound, more, Bool.false_eq_true, if_false]

theorem Behind.initial (config : Config) (later : 0 < k) (input output : Memory) :
    Behind j k (initial config input output) :=
  ⟨Nat.zero_le _, fun last => absurd last (Nat.succ_ne_zero j).symm, Nat.zero_le _,
     fun last => absurd last later.ne⟩

/-- Where neither party may go on, the agent copies the output of round `j` and the
server writes the one of round `k`. -/
theorem Behind.reached (earlier : j < k) (below : k < scenario.count)
    (adjacent : config.receives false = true → k = j + 1) (control : Control config scenario s)
    (behind : Behind j k s)
    (blocked : ∀ party, Admits j k s party → step config scenario s party = none) :
    s.agent.pc = .write ∧ s.agent.received = j + 1 ∧
      s.server.pc = .running ∧ s.server.round = k := by
  have round := behind.round
  have agent : s.agent.pc = .write ∧ s.agent.received = j + 1 := by
    apply Classical.not_not.mp
    intro admits
    have place := control.agent.place
    rcases control.received_of_blocked (blocked .agent admits) with pc | ⟨pc, received⟩
    · rw [pc] at place
      have all : s.agent.received = scenario.count := place
      have := behind.received
      omega
    · have notLast : s.agent.received ≠ j + 1 := by
        intro last
        rcases behind.agent last with other | other
        · rw [pc] at other
          cases other
        · rw [pc] at other
          cases other
      have few := behind.received
      have notWriting : ¬ (s.server.pc = .running ∧ s.server.round = k) := by
        intro writing
        omega
      have server := control.round_of_blocked (blocked .server notWriting)
      rw [pc] at server
      simp only [AgentPc.sent] at server
      omega
  refine ⟨agent.1, agent.2, ?_⟩
  apply Classical.not_not.mp
  intro admits
  have server := control.round_of_blocked (blocked .server admits)
  rw [agent.1, agent.2] at server
  simp only [AgentPc.sent] at server
  rcases serverStep_blocked (blocked .server admits) with pc | ⟨pc, waiting, receives⟩
  · have all := control.server.ended.mp pc
    omega
  · have handshake : config.receives false = true := by
      have later : decide (s.server.round = 0) = false := decide_eq_false (by omega)
      rw [later] at receives
      exact receives
    have := adjacent handshake
    omega

/-- A run in which the server writes to a half the agent copies from. -/
theorem exists_unsafe_run (buffer : config.outputBuffer = true) (earlier : j < k)
    (below : k < scenario.count) (adjacent : config.receives false = true → k = j + 1)
    (written : scenario.output j ≠ []) (output : scenario.output k ≠ [])
    (same : (scenario.outputsBefore j).bodd = k.bodd) (inputs outputs : Memory) :
    ∃ schedule s, run (step config scenario) (initial config inputs outputs) schedule = some s ∧
      ¬ OutputSafe scenario s := by
  have responds := config.responds_of_outputBuffer buffer
  obtain ⟨schedule, s, -, reached, ⟨control, halves, behind⟩, blocked⟩ :=
    @exists_blocked_run System Party (step config scenario) (Admits j k)
      (fun s => Control config scenario s ∧ OutputControl scenario s ∧ Behind j k s)
      (System.remaining scenario) (by
        intro s party s' kept admits stepped
        refine ⟨⟨kept.1.step responds stepped, kept.2.1.step buffer kept.1 stepped, ?_⟩,
          kept.1.remaining_lt stepped⟩
        cases party with
        | agent => exact kept.2.2.agentStep earlier below kept.1 admits stepped
        | server => exact kept.2.2.serverStep below kept.1 admits stepped)
      (initial config inputs outputs)
      ⟨Control.initial config scenario inputs outputs,
        OutputControl.initial scenario config inputs outputs,
        Behind.initial config (by omega) inputs outputs⟩
  obtain ⟨agent, received, server, round⟩ := behind.reached earlier below adjacent control blocked
  refine ⟨schedule, s, reached, ?_⟩
  intro safe
  rw [← round] at output
  apply safe server output
  rw [halves.mem_pending buffer control]
  have copied : s.agent.copied = j := by
    simp only [Agent.copied, agent, AgentPc.holding, if_true, received, Nat.add_sub_cancel]
  refine ⟨j, copied.le, by omega, written, ?_⟩
  rw [halves.serverHalf, round, same]

end

/-- The server never writes an output to a half the agent still copies from, exactly
if the halves of the rounds are apart. -/
theorem output_safe_iff_halvesApart (config : Config) (scenario : Scenario)
    (buffer : config.outputBuffer = true) :
    (∀ input output schedule s,
      run (step config scenario) (initial config input output) schedule = some s →
        OutputSafe scenario s) ↔ HalvesApart config scenario := by
  constructor
  · intro safe j k earlier below adjacent written output same
    obtain ⟨schedule, s, reached, danger⟩ := exists_unsafe_run buffer earlier below adjacent
      written output same (fun _ => []) fun _ => []
    exact danger (safe _ _ schedule s reached)
  · intro apart input output schedule s reached
    have kept : Control config scenario s ∧ OutputControl scenario s := by
      apply inv_of_steps _ _ reached
      · intro s party s' holds stepped
        exact ⟨holds.1.step (config.responds_of_outputBuffer buffer) stepped,
          holds.2.step buffer holds.1 stepped⟩
      · exact ⟨Control.initial config scenario input output,
          OutputControl.initial scenario config input output⟩
    exact kept.2.safe buffer apart kept.1

/-- Three rounds, each with an output. -/
def threeRounds : Scenario where
  rounds := [([byte 1], [byte 2]), ([byte 3], [byte 4]), ([byte 5], [byte 6])]
  nonempty := by decide
  idle := by decide
  bounded := by decide

/-- The last operator of a pipeline, between another operator and standard output. -/
def sinkConfig : Config where
  role := .sink
  inputBuffer := false
  outputBuffer := true
  sourceOutput := by decide
  sinkInput := fun _ => rfl

theorem threeRounds_halvesApart : HalvesApart sinkConfig threeRounds := by
  intro j k earlier below adjacent written output
  have count : threeRounds.count = 3 := rfl
  have next : k = j + 1 := adjacent rfl
  have cases : j = 0 ∨ j = 1 := by omega
  rcases cases with first | second
  · rw [next, first]
    decide
  · rw [next, second]
    decide

/-- An operator that is asked for every round never has its output overwritten. -/
theorem output_safe_iff_halvesApart_sink :
    HalvesApart sinkConfig threeRounds ∧
      ∀ input output schedule s,
        run (step sinkConfig threeRounds) (initial sinkConfig input output) schedule = some s →
          OutputSafe threeRounds s :=
  ⟨threeRounds_halvesApart,
    (output_safe_iff_halvesApart sinkConfig threeRounds rfl).mpr threeRounds_halvesApart⟩

/-- The generator, as the only operator and with standard output. -/
def datagenConfig : Config := .single false true

/-- The server writes the third output of the generator before the agent has copied
the first one. -/
theorem datagen_output_unsafe :
    ¬ ∀ (config : Config) (scenario : Scenario), config.outputBuffer = true →
      ∀ input output schedule s,
        run (step config scenario) (initial config input output) schedule = some s →
          OutputSafe scenario s := by
  intro claim
  have safe := claim datagenConfig threeRounds rfl (fun _ => []) (fun _ => [])
    [.agent, .server, .server, .server, .server, .server, .server, .server, .server, .server,
      .server] _ rfl rfl (by decide)
  exact safe (by decide)

end MetalFs.Driver
