import MetalFs.Driver.OutputBuffer

/-!
# Rounds in lock-step

If the server starts a round only after the agent has copied the output of the round
before, what the agent prints depends on the outputs and the halves alone:
`lockStepOutput` computes it, and `LockControl.stdout` says that every such run ends
with it.  It is the output of the pipeline if both parties use the same half whenever
there is something to copy.
-/

namespace MetalFs.Driver

open Runs Fifo DoubleBuffer

/-! ## What is printed -/

/-- The outputs of the rounds. -/
def Scenario.outputs (scenario : Scenario) : List (List Byte) := scenario.rounds.map Prod.snd

/-- The bytes that are printed when the server writes and the agent copies in turn, each
from its current half on. -/
def lockStepOutput (memory : Memory) (server agent : Bool) : List (List Byte) → List Byte
  | [] => []
  | output :: outputs =>
    (memory.fill server output agent).take output.length ++
      lockStepOutput (memory.fill server output) (!server)
        (if output = [] then agent else !agent) outputs

/-- Whenever there is an output, the halves do not differ. -/
def Synchronized : Bool → List Nat → Prop
  | _, [] => True
  | differ, size :: sizes =>
    (size ≠ 0 → differ = false) ∧ Synchronized (if size = 0 then !differ else differ) sizes

theorem synchronized_iff (differ : Bool) (sizes : List Nat) :
    Synchronized differ sizes ↔
      ∀ k (below : k < sizes.length), sizes[k] ≠ 0 → differ = ((sizes.take k).count 0).bodd := by
  induction sizes generalizing differ with
  | nil => exact ⟨fun _ k below => absurd below (Nat.not_lt_zero k), fun _ => trivial⟩
  | cons size sizes ih =>
    rw [Synchronized, ih]
    have later : ∀ k, (if size = 0 then !differ else differ) = ((sizes.take k).count 0).bodd ↔
        differ = (((size :: sizes).take (k + 1)).count 0).bodd := by
      intro k
      rw [List.take_succ_cons, List.count_cons]
      split
      · rename_i zero
        rw [zero, beq_self_eq_true, if_pos rfl, Nat.bodd_succ]
        exact Bool.not_eq_eq_eq_not
      · rename_i positive
        rw [beq_eq_false_iff_ne.mpr positive, if_neg Bool.false_ne_true, Nat.add_zero]
    constructor
    · intro synchronized k below output
      cases k with
      | zero =>
        rw [List.take_zero, List.count_nil, Nat.bodd_zero]
        exact synchronized.1 output
      | succ k => exact (later k).mp (synchronized.2 k (Nat.lt_of_succ_lt_succ below) output)
    · intro synchronized
      constructor
      · intro output
        have first := synchronized 0 (Nat.zero_lt_succ _) output
        rw [List.take_zero, List.count_nil, Nat.bodd_zero] at first
        exact first
      intro k below output
      exact (later k).mpr (synchronized (k + 1) (Nat.succ_lt_succ below) output)

theorem lockStepOutput_eq_flatten {outputs : List (List Byte)} {memory : Memory}
    {server agent : Bool}
    (synchronized : Synchronized (server ^^ agent) (outputs.map List.length)) :
    lockStepOutput memory server agent outputs = outputs.flatten := by
  induction outputs generalizing memory server agent with
  | nil => rfl
  | cons output outputs ih =>
    obtain ⟨same, rest⟩ := synchronized
    rw [lockStepOutput, List.flatten_cons]
    rcases Classical.em (output = []) with empty | written
    · rw [empty, List.length_nil, if_pos rfl, ← Bool.not_xor] at rest
      rw [empty, if_pos rfl, List.length_nil, List.take_zero, ih rest]
    · have positive : output.length ≠ 0 := mt List.eq_nil_of_length_eq_zero written
      rw [if_neg positive, ← Bool.not_xor_not] at rest
      have half : agent = server := (bne_eq_false_iff_eq.mp (same positive)).symm
      rw [if_neg written, ih rest, half, fill_same]

/-- Where the halves differ when there is an output, something else is printed, at least
for some outputs of these sizes. -/
theorem exists_lockStepOutput_ne {sizes : List Nat} {server agent : Bool}
    (bounded : ∀ size ∈ sizes, size ≤ bufferSize)
    (apart : ¬ Synchronized (server ^^ agent) sizes) :
    ∃ outputs, outputs.map List.length = sizes ∧
      lockStepOutput (fun _ => List.replicate bufferSize (byte 0)) server agent outputs ≠
        outputs.flatten := by
  induction sizes generalizing server agent with
  | nil => exact absurd trivial apart
  | cons size sizes ih =>
    have small := bounded size List.mem_cons_self
    rcases Classical.em (size ≠ 0 ∧ server ≠ agent) with wrong | right
    · -- the agent finds the zeros of its own half
      obtain ⟨positive, differ⟩ := wrong
      refine ⟨List.replicate size (byte 1) :: sizes.map fun size => List.replicate size (byte 0),
        ?_, ?_⟩
      · simp only [List.map_cons, List.length_replicate, List.map_map, Function.comp_def,
          List.map_id']
      · intro same
        rw [lockStepOutput, fill_other _ differ.symm, List.length_replicate, List.flatten_cons,
          List.take_replicate, Nat.min_eq_left small] at same
        have first := (List.append_inj same (by rw [List.length_replicate, List.length_replicate])).1
        rw [List.replicate_right_inj positive] at first
        exact absurd first (by decide)
    · have next : ¬ Synchronized (if size = 0 then !(server ^^ agent) else (server ^^ agent))
          sizes := by
        intro rest
        refine apart ⟨?_, rest⟩
        intro positive
        exact bne_eq_false_iff_eq.mpr (Classical.not_not.mp fun differ => right ⟨positive, differ⟩)
      have halves : (if size = 0 then !(server ^^ agent) else (server ^^ agent)) =
          (!server ^^ if List.replicate size (byte 0) = [] then agent else !agent) := by
        simp only [List.replicate_eq_nil_iff]
        split
        · rw [Bool.not_xor]
        · rw [Bool.not_xor_not]
      rw [halves] at next
      obtain ⟨outputs, lengths, different⟩ :=
        ih (fun size member => bounded size (List.mem_cons_of_mem _ member)) next
      refine ⟨List.replicate size (byte 0) :: outputs, ?_, ?_⟩
      · rw [List.map_cons, lengths, List.length_replicate]
      · intro same
        rw [lockStepOutput, fill_replicate small, List.length_replicate, List.flatten_cons,
          List.take_replicate, Nat.min_eq_left small, List.append_cancel_left_eq] at same
        exact different same

/-! ## Runs -/

/-- The server starts a round when the agent has copied the output of the round before. -/
def LockStep (s : System) : Party → Prop
  | .agent => True
  | .server => s.server.pc = .start → s.agent.copied = s.server.round

instance LockStep.decidable (s : System) : ∀ party, Decidable (LockStep s party)
  | .agent => inferInstanceAs (Decidable True)
  | .server => inferInstanceAs (Decidable (s.server.pc = .start → s.agent.copied = s.server.round))

/-- What is still to be printed, when the agent has copied `copied` outputs and the
server has written `taken` of them. -/
def Scenario.unprinted (scenario : Scenario) (memory : Memory) (copied taken : Nat) : List Byte :=
  if taken = copied then
    lockStepOutput memory copied.bodd (scenario.outputsBefore copied).bodd
      (scenario.outputs.drop copied)
  else
    (memory (scenario.outputsBefore copied).bodd).take (scenario.output copied).length ++
      lockStepOutput memory (copied + 1).bodd (scenario.outputsBefore (copied + 1)).bodd
        (scenario.outputs.drop (copied + 1))

/-- The agent is at most one output behind, and prints what the parties do in turn. -/
structure LockControl (scenario : Scenario) (total : List Byte) (s : System) : Prop where
  close : s.server.taken ≤ s.agent.copied + 1
  running : s.server.pc = .running → s.agent.copied = s.server.round
  stdout : s.agent.stdout ++ scenario.unprinted s.output s.agent.copied s.server.taken = total

section

variable {config : Config} {scenario : Scenario} {s s' : System} {total : List Byte}

theorem Scenario.outputs_drop {k : Nat} (below : k < scenario.rounds.length) :
    scenario.outputs.drop k = scenario.output k :: scenario.outputs.drop (k + 1) := by
  have same : (scenario.rounds[k]).2 = scenario.output k := by
    unfold Scenario.output
    rw [List.getD_eq_getElem _ _ below]
  unfold Scenario.outputs
  rw [← List.map_drop, ← List.map_drop, List.drop_eq_getElem_cons below, List.map_cons, same]

/-- The server writes the next output. -/
theorem Scenario.unprinted_fill {k : Nat} (below : k < scenario.count) (memory : Memory) :
    scenario.unprinted (memory.fill k.bodd (scenario.output k)) k (k + 1) =
      scenario.unprinted memory k k := by
  unfold Scenario.unprinted
  rw [if_neg (Nat.succ_ne_self k), if_pos rfl, Scenario.outputs_drop below, lockStepOutput,
    Nat.bodd_succ, Scenario.outputsBefore]
  split
  · rw [Nat.add_zero]
  · rw [Nat.bodd_succ]

/-- The agent copies the output. -/
theorem Scenario.unprinted_copy {k : Nat} (memory : Memory) :
    scenario.unprinted memory k (k + 1) =
      (memory (scenario.outputsBefore k).bodd).take (scenario.output k).length ++
        scenario.unprinted memory (k + 1) (k + 1) := by
  unfold Scenario.unprinted
  rw [if_neg (Nat.succ_ne_self k), if_pos rfl]

/-- A step of the agent that copies nothing. -/
theorem LockControl.agent_frame {agent : Agent} {requests : List ProcessingRequest}
    {responses : List ProcessingResponse} {input : Memory} (lock : LockControl scenario total s)
    (copied : agent.copied = s.agent.copied) (stdout : agent.stdout = s.agent.stdout) :
    LockControl scenario total
      ⟨agent, s.server, requests, responses, input, s.output⟩ := by
  refine ⟨?_, ?_, ?_⟩
  · dsimp only
    rw [copied]
    exact lock.close
  · dsimp only
    rw [copied]
    exact lock.running
  · dsimp only
    rw [copied, stdout]
    exact lock.stdout

/-- The agent writes the output of the response it holds. -/
theorem LockControl.written (buffer : config.outputBuffer = true)
    (control : Control config scenario s) (outputs : OutputControl scenario s)
    (lock : LockControl scenario total s) (holding : s.agent.pc.holding = true) {pc : AgentPc}
    (next : pc.holding = false) :
    LockControl scenario total { s with agent := (writeOutput config s.output s.agent).goto pc } := by
  have half := outputs.agentHalf
  have order := control.order
  have rounds := s.server.round_le_taken
  have close := lock.close
  have stdout := lock.stdout
  have copied : ((writeOutput config s.output s.agent).goto pc).copied = s.agent.received := by
    rw [writeOutput_of_buffer buffer]
    simp only [Agent.copied, Agent.goto, next, Bool.false_eq_true, if_false]
  have before : s.agent.copied = s.agent.received - 1 := by
    simp only [Agent.copied, holding, if_true]
  have printed : ((writeOutput config s.output s.agent).goto pc).stdout = s.agent.stdout ++
      (s.output s.agent.outputCurrent).take (scenario.lastResponse config s.agent.received).size := by
    rw [writeOutput_of_buffer buffer, control.agent.held]
    rfl
  rw [before] at half close stdout
  cases received : s.agent.received with
  | zero =>
    rw [received] at copied before printed
    refine lock.agent_frame (copied.trans before.symm) (printed.trans ?_)
    rw [Scenario.lastResponse, List.take_zero, List.append_nil]
  | succ round =>
    rw [received, Nat.add_sub_cancel] at half close stdout
    rw [received] at copied printed order
    have taken : s.server.taken = round + 1 := by omega
    have notRunning : s.server.pc ≠ .running := by
      intro running
      have := lock.running running
      omega
    refine ⟨?_, fun running => absurd running notRunning, ?_⟩
    · dsimp only
      rw [copied]
      omega
    · dsimp only
      rw [taken, Scenario.unprinted_copy, ← half] at stdout
      rw [copied, printed, taken, ← stdout, List.append_assoc]
      simp only [Scenario.lastResponse, Scenario.response, buffer, if_true]

theorem LockControl.agentStep (buffer : config.outputBuffer = true)
    (control : Control config scenario s) (outputs : OutputControl scenario s)
    (lock : LockControl scenario total s) (stepped : agentStep config scenario s = some s') :
    LockControl scenario total s' := by
  cases agentStep_moves stepped with
  | readFirst pc => exact lock.agent_frame (by simp only [Agent.copied, pc]; rfl) rfl
  | stop pc eof => exact lock.agent_frame (by simp only [Agent.copied, pc]; rfl) rfl
  | send pc eof => exact lock.agent_frame (by simp only [Agent.copied, pc]; rfl) rfl
  | write pc =>
    refine lock.written buffer control outputs (by rw [pc]; rfl) ?_
    split
    · rfl
    · rfl
  | readNext pc => exact lock.agent_frame (by simp only [Agent.copied, pc]; rfl) rfl
  | receive pc waiting => exact lock.agent_frame (by simp only [Agent.copied, pc]; rfl) rfl
  | writeLast pc => exact lock.written buffer control outputs (by rw [pc]; rfl) rfl

theorem LockControl.serverStep (buffer : config.outputBuffer = true)
    (control : Control config scenario s) (outputs : OutputControl scenario s)
    (lock : LockControl scenario total s) (locked : LockStep s .server)
    (stepped : serverStep config scenario s = some s') : LockControl scenario total s' := by
  have close := lock.close
  have stdout := lock.stdout
  cases serverStep_moves stepped with
  | receive pc receives waiting =>
    rw [Server.taken_of_not_finalize (by rw [pc]; decide)] at close stdout
    exact ⟨close, fun running => ServerPc.noConfusion running, stdout⟩
  | proceed pc receives =>
    rw [Server.taken_of_not_finalize (by rw [pc]; decide)] at close stdout
    exact ⟨close, fun running => ServerPc.noConfusion running, stdout⟩
  | start pc =>
    rw [Server.taken_of_not_finalize (by rw [pc]; decide)] at close stdout
    exact ⟨close, fun _ => locked pc, stdout⟩
  | finishRun pc =>
    have copied := lock.running pc
    have active : s.server.pc.Active := .inr (.inl pc)
    have below := control.server.below active
    rw [Server.taken_of_not_finalize (by rw [pc]; decide), copied] at stdout
    have taken : (finishRun config scenario s).server.taken = s.server.round + 1 := rfl
    refine ⟨?_, fun running => ServerPc.noConfusion running, ?_⟩
    · rw [taken]
      exact Nat.succ_le_succ copied.ge
    · rw [taken]
      simp only [finishRun, config.writesOutput_eq, buffer, if_true,
        (control.server.active active).1, Scenario.output_eq below, outputs.serverHalf, copied]
      rw [Scenario.unprinted_fill below]
      exact stdout
  | finalize pc =>
    obtain ⟨idle, taken⟩ := finalizeRound_idle config s
    rw [Server.taken_of_finalize pc] at close stdout
    exact ⟨taken ▸ close, fun running => absurd running idle, taken ▸ stdout⟩

theorem LockControl.initial (config : Config) (scenario : Scenario) (input output : Memory) :
    LockControl scenario (lockStepOutput output false false scenario.outputs)
      (initial config input output) := by
  have copied : (Driver.initial config input output).agent.copied = 0 := by
    unfold Agent.copied
    exact ite_self _
  have taken : (Driver.initial config input output).server.taken = 0 := rfl
  refine ⟨?_, fun running => ServerPc.noConfusion running, ?_⟩
  · rw [taken]
    exact Nat.zero_le _
  · rw [copied, taken, Scenario.unprinted, if_pos rfl, List.drop_zero, Scenario.outputsBefore,
      Nat.bodd_zero]
    rfl

/-- The invariants of a run in lock-step. -/
structure LockedRun (config : Config) (scenario : Scenario) (total : List Byte) (s : System) :
    Prop where
  control : Control config scenario s
  outputs : OutputControl scenario s
  lock : LockControl scenario total s

theorem LockedRun.initial (config : Config) (scenario : Scenario) (input output : Memory) :
    LockedRun config scenario (lockStepOutput output false false scenario.outputs)
      (initial config input output) :=
  ⟨Control.initial config scenario input output, OutputControl.initial scenario config input output,
    LockControl.initial config scenario input output⟩

theorem LockedRun.step (buffer : config.outputBuffer = true) {party : Party}
    (kept : LockedRun config scenario total s) (locked : LockStep s party)
    (stepped : step config scenario s party = some s') : LockedRun config scenario total s' := by
  refine ⟨kept.control.step (config.responds_of_outputBuffer buffer) stepped,
    kept.outputs.step buffer kept.control stepped, ?_⟩
  cases party with
  | agent => exact kept.lock.agentStep buffer kept.control kept.outputs stepped
  | server => exact kept.lock.serverStep buffer kept.control kept.outputs locked stepped

/-- At its end the agent has printed everything. -/
theorem LockedRun.stdout (kept : LockedRun config scenario total s) (done : s.agent.pc = .done) :
    s.agent.stdout = total := by
  have place := kept.control.agent.place
  rw [done] at place
  have received : s.agent.received = scenario.count := place
  have copied : s.agent.copied = scenario.count := by
    simp only [Agent.copied, done, AgentPc.holding, Bool.false_eq_true, if_false, received]
  have finished : s.server.round = scenario.count := by
    have := kept.control.order
    have := kept.control.server.rounds
    omega
  have taken : s.server.taken = scenario.count := by
    rw [Server.taken_of_not_finalize, finished]
    rw [kept.control.server.ended.mpr finished]
    decide
  have nothing : scenario.outputs.drop scenario.count = [] := by
    apply List.drop_eq_nil_of_le
    rw [Scenario.outputs, List.length_map]
    rfl
  have stdout := kept.lock.stdout
  rw [copied, taken, Scenario.unprinted, if_pos rfl, nothing, lockStepOutput,
    List.append_nil] at stdout
  exact stdout

/-- There is a run in lock-step to the end of the agent. -/
theorem exists_locked_run (buffer : config.outputBuffer = true) (scenario : Scenario)
    (input output : Memory) :
    ∃ schedule s, Steps (Driver.step config scenario) LockStep
        (Driver.initial config input output) schedule ∧
      run (Driver.step config scenario) (Driver.initial config input output) schedule = some s ∧
      s.agent.pc = .done ∧
      s.agent.stdout = lockStepOutput output false false scenario.outputs := by
  obtain ⟨schedule, s, steps, reached, kept, blocked⟩ :=
    @exists_blocked_run System Party (Driver.step config scenario) LockStep
      (LockedRun config scenario (lockStepOutput output false false scenario.outputs))
      (System.remaining scenario)
      (fun kept locked stepped =>
        ⟨kept.step buffer locked stepped, kept.control.remaining_lt stepped⟩)
      (Driver.initial config input output) (LockedRun.initial config scenario input output)
  have control := kept.control
  have done : s.agent.pc = .done := by
    rcases control.received_of_blocked (blocked .agent trivial) with done | ⟨pc, received⟩
    · exact done
    · have copied : s.agent.copied = s.server.round := by
        simp only [Agent.copied, pc, AgentPc.holding, Bool.false_eq_true, if_false, received]
      have server := control.round_of_blocked (blocked .server fun _ => copied)
      have place := control.agent.place
      rw [pc] at server place
      simp only [AgentPc.sent, AgentPc.Allows] at server place
      omega
  exact ⟨schedule, s, steps, reached, done, kept.stdout done⟩

end

/-- Rounds with given outputs, each of a single byte of input. -/
def Scenario.ofOutputs (outputs : List (List Byte)) (nonempty : outputs ≠ [])
    (bounded : ∀ output ∈ outputs, output.length ≤ bufferSize) : Scenario where
  rounds := outputs.map fun output => ([byte 0], output)
  nonempty := mt List.map_eq_nil_iff.mp nonempty
  idle := by
    intro round member empty
    obtain ⟨output, -, same⟩ := List.mem_map.mp member
    rw [← same] at empty
    cases empty
  bounded := by
    intro round member
    obtain ⟨output, written, same⟩ := List.mem_map.mp member
    rw [← same]
    exact ⟨show 1 ≤ bufferSize by decide, bounded output written⟩

theorem Scenario.ofOutputs_outputs {outputs : List (List Byte)} {nonempty : outputs ≠ []}
    {bounded : ∀ output ∈ outputs, output.length ≤ bufferSize} :
    (Scenario.ofOutputs outputs nonempty bounded).outputs = outputs := by
  unfold Scenario.outputs Scenario.ofOutputs
  rw [List.map_map]
  exact List.map_id _

theorem synchronized_iff_even (sizes : List Nat) :
    Synchronized false sizes ↔
      ∀ k (below : k < sizes.length), sizes[k] ≠ 0 → Even ((sizes.take k).count 0) := by
  have even : ∀ n : Nat, false = n.bodd ↔ Even n := by
    intro n
    rw [Nat.even_iff, Nat.mod_two_of_bodd]
    cases n.bodd <;> decide
  rw [synchronized_iff]
  constructor
  · intro same k below output
    exact (even _).mp (same k below output)
  · intro same k below output
    exact (even _).mpr (same k below output)

/-- In lock-step the agent prints the outputs of the rounds, exactly if every output has
an even number of rounds without one before it. -/
theorem stdout_eq_outputs_iff_even (config : Config) (buffer : config.outputBuffer = true)
    (sizes : List Nat) (bounded : ∀ size ∈ sizes, size ≤ bufferSize) :
    (∀ scenario : Scenario, scenario.outputs.map List.length = sizes →
      ∀ input output schedule s,
        Steps (step config scenario) LockStep (initial config input output) schedule →
        run (step config scenario) (initial config input output) schedule = some s →
        s.agent.pc = .done → s.agent.stdout = scenario.outputs.flatten) ↔
      ∀ k (below : k < sizes.length), sizes[k] ≠ 0 → Even ((sizes.take k).count 0) := by
  rw [← synchronized_iff_even]
  constructor
  · intro printed
    apply Classical.not_not.mp
    intro apart
    obtain ⟨outputs, lengths, different⟩ :=
      @exists_lockStepOutput_ne sizes false false bounded apart
    have nonempty : outputs ≠ [] := by
      intro empty
      rw [empty, List.map_nil] at lengths
      rw [← lengths] at apart
      exact apart trivial
    have small : ∀ output ∈ outputs, output.length ≤ bufferSize := by
      intro output member
      apply bounded
      rw [← lengths]
      exact List.mem_map_of_mem member
    obtain ⟨schedule, s, steps, reached, done, stdout⟩ := exists_locked_run buffer
      (Scenario.ofOutputs outputs nonempty small) (fun _ => [])
      fun _ => List.replicate bufferSize (byte 0)
    have claimed := printed _ (by rw [Scenario.ofOutputs_outputs]; exact lengths) _ _ schedule s
      steps reached done
    rw [stdout, Scenario.ofOutputs_outputs] at claimed
    exact different claimed
  · intro synchronized scenario lengths input output schedule s steps reached done
    have kept := inv_of_run (fun kept locked stepped => kept.step buffer locked stepped)
      (LockedRun.initial config scenario input output) steps reached
    rw [kept.stdout done]
    apply lockStepOutput_eq_flatten
    rw [lengths]
    exact synchronized

/-- Two empty rounds between two outputs do no harm. -/
theorem stdout_eq_outputs_iff_even_gap :
    (∀ size ∈ [1, 0, 0, 1], size ≤ bufferSize) ∧
      ∀ scenario : Scenario, scenario.outputs.map List.length = [1, 0, 0, 1] →
        ∀ input output schedule s,
          Steps (step sinkConfig scenario) LockStep (initial sinkConfig input output) schedule →
          run (step sinkConfig scenario) (initial sinkConfig input output) schedule = some s →
          s.agent.pc = .done → s.agent.stdout = scenario.outputs.flatten :=
  ⟨by decide, (stdout_eq_outputs_iff_even sinkConfig rfl [1, 0, 0, 1] (by decide)).mpr (by decide)⟩

/-- A first round without an output, as an operator may have it that collects its input. -/
def lateOutput : Scenario where
  rounds := [([byte 1], []), ([byte 2], [byte 7])]
  nonempty := by decide
  idle := by decide
  bounded := by decide

/-- The agent prints the half the server has not written to. -/
theorem lateOutput_not_printed :
    ¬ ∀ (config : Config) (scenario : Scenario), config.outputBuffer = true →
      ∀ input output schedule s,
        Steps (step config scenario) LockStep (initial config input output) schedule →
        run (step config scenario) (initial config input output) schedule = some s →
        s.agent.pc = .done → s.agent.stdout = scenario.outputs.flatten := by
  intro claim
  have printed := claim sinkConfig lateOutput rfl (fun _ => []) (fun _ => [byte 0])
    [.agent, .agent, .server, .server, .server, .server, .agent,
      .agent, .agent, .server, .server, .server, .server, .agent, .agent, .agent] _
    (by decide) rfl rfl
  exact absurd printed (by decide)

end MetalFs.Driver
