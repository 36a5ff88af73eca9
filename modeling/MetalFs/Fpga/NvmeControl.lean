import MetalFs.Fpga.NvmeController

/-!
# The states of the NVMe arbiter

The processes of `NvmeController.vhd` see each other's registers one cycle late.  `Control`
says how their states go together; `CommandStep` and `MainStep` are all that can happen in a
cycle that starts in such states.
-/

namespace MetalFs.Fpga

/-! ## How the states go together -/

/-- The register access reads the status. -/
def RegState.reading : RegState → Bool
  | idle | rdStatusAR | rdStatusA | rdStatusR | done => true
  | _ => false

/-- The register access writes a command. -/
def RegState.writing : RegState → Bool
  | wrAW _ | wrW _ | wrDoneA | done => true
  | _ => false

namespace Controller

/-- A command was taken in the cycle before. -/
def fresh (c : Controller) : Bool := c.command.rdReady || c.command.wrReady

/-- The states in which a command is written. -/
def inBurst (c : Controller) : Prop :=
  c.state = .writeCommandPush ∨ c.state = .writeCommand ∨ c.state = .ready

/-- How the states of the processes go together. -/
structure Control (c : Controller) : Prop where
  resting : c.state ≠ .readStatus → c.state ≠ .writeCommand → c.access.regState = .idle
  reading : c.state = .readStatus → c.access.regState.reading = true
  writing : c.state = .writeCommand → c.access.regState.writing = true
  valid : c.command.cmdValid = true ↔
    c.command.cmdState = .ackRd ∨ c.command.cmdState = .ackWr
  handling : c.inBurst → c.command.cmdValid = true
  early : c.fresh = true → c.command.cmdValid = true ∧ ¬ c.inBurst
  inc : ∀ drive, c.command.driveInc drive = (c.fresh && driveDecode c.command.cmd.drive drive)
  fromRd : c.command.rdReady = true → c.command.cmdWrNotRd = false ∧ c.command.wrReady = false
  fromWr : c.command.wrReady = true → c.command.cmdWrNotRd = true
  present : c.command.cmdValid = true → c.command.cmd.drive.val < nvmeDrivesPresent

variable {c : Controller} {i : Inputs}

theorem control_afterReset (driveFree : Drive → Bool) : Control (afterReset driveFree) where
  resting := fun _ _ => rfl
  reading := fun no => MainState.noConfusion no
  writing := fun no => MainState.noConfusion no
  valid := by
    constructor
    · intro no
      cases no
    · rintro (no | no) <;> cases no
  handling := by rintro (no | no | no) <;> cases no
  early := fun no => Bool.noConfusion no
  inc := fun _ => rfl
  fromRd := fun no => Bool.noConfusion no
  fromWr := fun no => Bool.noConfusion no
  present := fun no => Bool.noConfusion no

theorem takes_eq_true {valid : Bool} {cmd : NvmeCmd} (taken : c.takes valid cmd = true) :
    valid = true ∧ cmd.drive.val < nvmeDrivesPresent ∧ c.counters.driveFree cmd.drive = true := by
  simp only [takes, Bool.and_eq_true, decide_eq_true_eq] at taken
  exact ⟨taken.1.1, taken.1.2, taken.2⟩

/-- What the command process does in a cycle. -/
inductive CommandStep (c : Controller) (i : Inputs) : CmdRegs → Prop where
  | takeRd (idle : c.command.cmdValid = false) (offered : i.cmdRdValid = true)
      (present : (unpackNvmeCmd i.cmdRdData).drive.val < nvmeDrivesPresent)
      (free : c.counters.driveFree (unpackNvmeCmd i.cmdRdData).drive = true) :
      CommandStep c i (take false (unpackNvmeCmd i.cmdRdData))
  | takeWr (idle : c.command.cmdValid = false) (offered : i.cmdWrValid = true)
      (present : (unpackNvmeCmd i.cmdWrData).drive.val < nvmeDrivesPresent)
      (free : c.counters.driveFree (unpackNvmeCmd i.cmdWrData).drive = true) :
      CommandStep c i (take true (unpackNvmeCmd i.cmdWrData))
  | keep (busy : c.state ≠ .ready) : CommandStep c i c.quiet
  | release (cmdState : CmdState) (final : c.state = .ready) (valid : c.command.cmdValid = true)
      (idle : cmdState = .idleRd ∨ cmdState = .idleWr) :
      CommandStep c i { c.quiet with cmdValid := false, cmdState := cmdState }

theorem Control.idle_of_cmdState (control : Control c)
    (idle : c.command.cmdState = .idleRd ∨ c.command.cmdState = .idleWr) :
    c.command.cmdValid = false ∧ c.state ≠ .ready := by
  have invalid : c.command.cmdValid = false := by
    rw [← Bool.not_eq_true, control.valid]
    rcases idle with idle | idle <;> rw [idle] <;> rintro (no | no) <;> cases no
  refine ⟨invalid, ?_⟩
  intro final
  have valid := control.handling (Or.inr (Or.inr final))
  rw [invalid] at valid
  cases valid

theorem nextCommand_step (control : Control c) (i : Inputs) :
    CommandStep c i (c.nextCommand i) := by
  unfold nextCommand
  dsimp only
  split
  · rename_i idle
    obtain ⟨invalid, notFinal⟩ := control.idle_of_cmdState (Or.inl idle)
    split
    · rename_i taken
      obtain ⟨offered, present, free⟩ := takes_eq_true taken
      exact .takeRd invalid offered present free
    · split
      · rename_i taken
        obtain ⟨offered, present, free⟩ := takes_eq_true taken
        exact .takeWr invalid offered present free
      · exact .keep notFinal
  · rename_i idle
    obtain ⟨invalid, notFinal⟩ := control.idle_of_cmdState (Or.inr idle)
    split
    · rename_i taken
      obtain ⟨offered, present, free⟩ := takes_eq_true taken
      exact .takeWr invalid offered present free
    · split
      · rename_i taken
        obtain ⟨offered, present, free⟩ := takes_eq_true taken
        exact .takeRd invalid offered present free
      · exact .keep notFinal
  · rename_i ack
    split
    · rename_i final
      exact .release _ (of_decide_eq_true final) (control.valid.mpr (Or.inl ack)) (Or.inr rfl)
    · rename_i busy
      exact .keep fun final => busy (decide_eq_true final)
  · rename_i ack
    split
    · rename_i final
      exact .release _ (of_decide_eq_true final) (control.valid.mpr (Or.inr ack)) (Or.inl rfl)
    · rename_i busy
      exact .keep fun final => busy (decide_eq_true final)

/-! ## The main state machine and the register access -/

/-- The states in which a response is sent, on one of the streams and with or without a pull. -/
def sendState : Bool → Bool → MainState
  | false, true => .sendResRdPull
  | false, false => .sendResRd
  | true, true => .sendResWrPull
  | true, false => .sendResWr

end Controller

/-- The ready signal of a response stream. -/
def Inputs.rspReady (i : Inputs) (wrNotRd : Bool) : Bool :=
  if wrNotRd then i.rspWrReady else i.rspRdReady

namespace Controller

variable {c : Controller} {i : Inputs}

/-- What the main process and the register access do together in a cycle. -/
inductive MainStep (c : Controller) (i : Inputs) : MainState → AccessRegs → Prop where
  | rest (idle : c.state = .idle) (invalid : c.command.cmdValid = false)
      (free : c.access.regState = .idle) : MainStep c i .idle c.access
  | poll (idle : c.state = .idle) (invalid : c.command.cmdValid = false)
      (free : c.access.regState = .idle) : MainStep c i .readStatus c.access
  | begin (idle : c.state = .idle) (valid : c.command.cmdValid = true)
      (free : c.access.regState = .idle) : MainStep c i .writeCommandPush c.access
  | request (reads : c.state = .readStatus) (free : c.access.regState = .idle) :
      MainStep c i .readStatus ⟨.rdStatusAR, c.access.regStatus⟩
  | await (r : RegState) (reads : c.state = .readStatus)
      (before : c.access.regState = .rdStatusAR ∨ c.access.regState = .rdStatusR)
      (silent : i.rValid = false) (after : r = .rdStatusAR ∨ r = .rdStatusR) :
      MainStep c i .readStatus ⟨r, c.access.regStatus⟩
  | capture (r : RegState) (reads : c.state = .readStatus)
      (before : c.access.regState = .rdStatusAR ∨ c.access.regState = .rdStatusR)
      (answered : i.rValid = true) (after : r = .rdStatusA ∨ r = .done) :
      MainStep c i .readStatus ⟨r, i.rData⟩
  | acknowledge (r : RegState) (reads : c.state = .readStatus)
      (before : c.access.regState = .rdStatusA) (after : r = .rdStatusA ∨ r = .done) :
      MainStep c i .readStatus ⟨r, c.access.regStatus⟩
  | complete (wrNotRd : Bool) (reads : c.state = .readStatus) (done : c.access.regState = .done)
      (completed : bit c.access.regStatus 0 = true) (stream : c.fifoOut.wrNotRd = wrNotRd) :
      MainStep c i (sendState wrNotRd true) ⟨.idle, c.access.regStatus⟩
  | nothing (reads : c.state = .readStatus) (done : c.access.regState = .done)
      (pending : bit c.access.regStatus 0 = false) : MainStep c i .idle ⟨.idle, c.access.regStatus⟩
  | send (wrNotRd pull : Bool) (sends : c.state = sendState wrNotRd pull)
      (free : c.access.regState = .idle) (accepted : i.rspReady wrNotRd = true) :
      MainStep c i .readStatus c.access
  | hold (wrNotRd pull : Bool) (sends : c.state = sendState wrNotRd pull)
      (free : c.access.regState = .idle) (refused : i.rspReady wrNotRd = false) :
      MainStep c i (sendState wrNotRd false) c.access
  | push (pushes : c.state = .writeCommandPush) (free : c.access.regState = .idle) :
      MainStep c i .writeCommand ⟨.wrAW .bufLo, c.access.regStatus⟩
  | write (writes : c.state = .writeCommand) (writing : c.access.regState.writing = true)
      (unfinished : c.access.regState ≠ .done) : MainStep c i .writeCommand (c.nextAccess i)
  | written (writes : c.state = .writeCommand) (done : c.access.regState = .done) :
      MainStep c i .ready ⟨.idle, c.access.regStatus⟩
  | release (final : c.state = .ready) (free : c.access.regState = .idle) :
      MainStep c i .readStatus c.access

/-- Without a request the register access rests. -/
theorem nextAccess_of_resting (free : c.access.regState = .idle) (reads : c.state ≠ .readStatus)
    (pushes : c.state ≠ .writeCommandPush) (writes : c.state ≠ .writeCommand) :
    c.nextAccess i = c.access := by
  simp [nextAccess, free, regDoRdStatus, regDoWrCommand, reads, pushes, writes]

theorem main_step_readStatus (control : Control c) (i : Inputs) (reads : c.state = .readStatus) :
    MainStep c i (c.nextState i) (c.nextAccess i) := by
  have reading := control.reading reads
  cases access : c.access.regState with
  | idle =>
    have state : c.nextState i = .readStatus := by simp [nextState, reads, regDone, access]
    have next : c.nextAccess i = ⟨.rdStatusAR, c.access.regStatus⟩ := by
      simp [nextAccess, access, regDoRdStatus, reads]
    rw [state, next]
    exact .request reads access
  | rdStatusAR =>
    have state : c.nextState i = .readStatus := by simp [nextState, reads, regDone, access]
    rw [state]
    cases valid : i.rValid with
    | false =>
      have next : c.nextAccess i =
          ⟨if i.arReady then .rdStatusR else .rdStatusAR, c.access.regStatus⟩ := by
        cases ready : i.arReady <;> simp [nextAccess, access, ready, valid]
        rw [← access]
      rw [next]
      refine .await _ reads (Or.inl access) valid ?_
      cases i.arReady
      · exact Or.inl rfl
      · exact Or.inr rfl
    | true =>
      have next : c.nextAccess i = ⟨if i.arReady then .done else .rdStatusA, i.rData⟩ := by
        cases ready : i.arReady <;> simp [nextAccess, access, ready, valid]
      rw [next]
      refine .capture _ reads (Or.inl access) valid ?_
      cases i.arReady
      · exact Or.inl rfl
      · exact Or.inr rfl
  | rdStatusA =>
    have state : c.nextState i = .readStatus := by simp [nextState, reads, regDone, access]
    have next : c.nextAccess i =
        ⟨if i.arReady then .done else .rdStatusA, c.access.regStatus⟩ := by
      cases ready : i.arReady <;> simp [nextAccess, access, ready]
      rw [← access]
    rw [state, next]
    refine .acknowledge _ reads access ?_
    cases i.arReady
    · exact Or.inl rfl
    · exact Or.inr rfl
  | rdStatusR =>
    have state : c.nextState i = .readStatus := by simp [nextState, reads, regDone, access]
    rw [state]
    cases valid : i.rValid with
    | false =>
      have next : c.nextAccess i = ⟨.rdStatusR, c.access.regStatus⟩ := by
        simp [nextAccess, access, valid]
        rw [← access]
      rw [next]
      exact .await _ reads (Or.inr access) valid (Or.inr rfl)
    | true =>
      have next : c.nextAccess i = ⟨.done, i.rData⟩ := by
        simp [nextAccess, access, valid]
      rw [next]
      exact .capture _ reads (Or.inr access) valid (Or.inr rfl)
  | done =>
    have next : c.nextAccess i = ⟨.idle, c.access.regStatus⟩ := by simp [nextAccess, access]
    rw [next]
    cases completed : bit c.access.regStatus 0 with
    | false =>
      have state : c.nextState i = .idle := by simp [nextState, reads, regDone, access, completed]
      rw [state]
      exact .nothing reads access completed
    | true =>
      have state : c.nextState i = sendState c.fifoOut.wrNotRd true := by
        cases stream : c.fifoOut.wrNotRd <;>
          simp [nextState, reads, regDone, access, completed, stream, sendState]
      rw [state]
      exact .complete _ reads access completed rfl
  | wrAW word =>
    rw [access] at reading
    cases reading
  | wrW word =>
    rw [access] at reading
    cases reading
  | wrDoneA =>
    rw [access] at reading
    cases reading

theorem sendState_ne (wrNotRd pull : Bool) : sendState wrNotRd pull ≠ .readStatus ∧
    sendState wrNotRd pull ≠ .writeCommandPush ∧ sendState wrNotRd pull ≠ .writeCommand ∧
      sendState wrNotRd pull ≠ .ready := by
  cases wrNotRd <;> cases pull <;>
    exact ⟨MainState.noConfusion, MainState.noConfusion, MainState.noConfusion,
      MainState.noConfusion⟩

theorem nextState_of_sends {wrNotRd pull : Bool} (sends : c.state = sendState wrNotRd pull) :
    c.nextState i = if i.rspReady wrNotRd then .readStatus else sendState wrNotRd false := by
  unfold nextState Inputs.rspReady
  rw [sends]
  cases wrNotRd <;> cases pull <;> rfl

/-- A response is sent or held. -/
theorem main_step_send (control : Control c) (i : Inputs) {wrNotRd pull : Bool}
    (sends : c.state = sendState wrNotRd pull) :
    MainStep c i (c.nextState i) (c.nextAccess i) := by
  obtain ⟨reads, pushes, writes, -⟩ := sendState_ne wrNotRd pull
  rw [← sends] at reads pushes writes
  have free := control.resting reads writes
  rw [nextAccess_of_resting free reads pushes writes, nextState_of_sends sends]
  cases ready : i.rspReady wrNotRd with
  | true => exact .send wrNotRd pull sends free ready
  | false => exact .hold wrNotRd pull sends free ready

theorem main_step (control : Control c) (i : Inputs) :
    MainStep c i (c.nextState i) (c.nextAccess i) := by
  cases state : c.state with
  | idle =>
    have free : c.access.regState = .idle := by
      apply control.resting <;> rw [state] <;> exact MainState.noConfusion
    have rests : c.nextAccess i = c.access := by
      apply nextAccess_of_resting free <;> rw [state] <;> exact MainState.noConfusion
    rw [rests]
    cases valid : c.command.cmdValid with
    | true =>
      have next : c.nextState i = .writeCommandPush := by simp [nextState, state, valid]
      rw [next]
      exact .begin state valid free
    | false =>
      cases pending : c.counters.driveCmdPending with
      | true =>
        have next : c.nextState i = .readStatus := by simp [nextState, state, valid, pending]
        rw [next]
        exact .poll state valid free
      | false =>
        have next : c.nextState i = .idle := by simp [nextState, state, valid, pending]
        rw [next]
        exact .rest state valid free
  | readStatus => exact main_step_readStatus control i state
  | sendResRdPull => exact main_step_send control i (@Eq.trans _ _ _ (sendState false true) state rfl)
  | sendResRd => exact main_step_send control i (@Eq.trans _ _ _ (sendState false false) state rfl)
  | sendResWrPull => exact main_step_send control i (@Eq.trans _ _ _ (sendState true true) state rfl)
  | sendResWr => exact main_step_send control i (@Eq.trans _ _ _ (sendState true false) state rfl)
  | writeCommandPush =>
    have free : c.access.regState = .idle := by
      apply control.resting <;> rw [state] <;> exact MainState.noConfusion
    have next : c.nextState i = .writeCommand := by simp [nextState, state, regDone, free]
    have access : c.nextAccess i = ⟨.wrAW .bufLo, c.access.regStatus⟩ := by
      simp [nextAccess, free, regDoRdStatus, regDoWrCommand, state]
    rw [next, access]
    exact .push state free
  | writeCommand =>
    by_cases done : c.access.regState = .done
    · have next : c.nextState i = .ready := by simp [nextState, state, regDone, done]
      have access : c.nextAccess i = ⟨.idle, c.access.regStatus⟩ := by simp [nextAccess, done]
      rw [next, access]
      exact .written state done
    · have next : c.nextState i = .writeCommand := by simp [nextState, state, regDone, done]
      rw [next]
      exact .write state (control.writing state) done
  | ready =>
    have free : c.access.regState = .idle := by
      apply control.resting <;> rw [state] <;> exact MainState.noConfusion
    have rests : c.nextAccess i = c.access := by
      apply nextAccess_of_resting free <;> rw [state] <;> exact MainState.noConfusion
    have next : c.nextState i = .readStatus := by simp [nextState, state]
    rw [next, rests]
    exact .release state free

/-! ## Writing a burst -/

end Controller

/-- The words before a word of the burst. -/
def BurstWord.index : BurstWord → Nat
  | bufLo => 0
  | bufHi => 1
  | blkLo => 2
  | blkHi => 3
  | cnt => 4
  | cmd => 5

/-- The words of the burst that are written. -/
def RegState.beatsDone : RegState → Nat
  | wrAW word | wrW word => word.index
  | wrDoneA | done => 6
  | _ => 0

/-- The address of the burst is accepted. -/
def RegState.addressDone : RegState → Bool
  | wrW _ | done => true
  | _ => false

namespace Controller

variable {c : Controller} {i : Inputs}

theorem afterBeat_counts (word : BurstWord) (address : Bool) :
    (afterBeat word address).writing = true ∧
      (afterBeat word address).beatsDone = word.index + 1 ∧
      (afterBeat word address).addressDone = address := by
  cases word <;> cases address <;> exact ⟨rfl, rfl, rfl⟩

/-- A cycle of a burst counts the handshakes. -/
theorem nextAccess_writing (writing : c.access.regState.writing = true)
    (unfinished : c.access.regState ≠ .done) :
    (c.nextAccess i).regState.writing = true ∧
      (c.nextAccess i).regState.beatsDone =
        c.access.regState.beatsDone + (c.access.regState.beat.isSome && i.wReady).toNat ∧
      ((c.nextAccess i).regState.addressDone =
        (c.access.regState.addressDone || c.access.regState.awValid && i.awReady)) := by
  unfold nextAccess
  cases access : c.access.regState with
  | idle =>
    rw [access] at writing
    cases writing
  | rdStatusAR =>
    rw [access] at writing
    cases writing
  | rdStatusA =>
    rw [access] at writing
    cases writing
  | rdStatusR =>
    rw [access] at writing
    cases writing
  | wrAW word =>
    obtain ⟨writing₁, beats₁, address₁⟩ := afterBeat_counts word true
    obtain ⟨writing₀, beats₀, address₀⟩ := afterBeat_counts word false
    cases i.awReady <;> cases i.wReady
    · exact ⟨writing, congrArg RegState.beatsDone access, congrArg RegState.addressDone access⟩
    · exact ⟨writing₀, beats₀, address₀⟩
    · exact ⟨rfl, rfl, rfl⟩
    · exact ⟨writing₁, beats₁, address₁⟩
  | wrW word =>
    obtain ⟨writing₁, beats₁, address₁⟩ := afterBeat_counts word true
    cases i.wReady
    · exact ⟨writing, congrArg RegState.beatsDone access, congrArg RegState.addressDone access⟩
    · exact ⟨writing₁, beats₁, address₁⟩
  | wrDoneA =>
    cases i.awReady
    · exact ⟨writing, congrArg RegState.beatsDone access, congrArg RegState.addressDone access⟩
    · exact ⟨rfl, rfl, rfl⟩
  | done => exact absurd access unfinished

/-! ## One cycle -/

/-- A burst goes on with the command that was there. -/
theorem MainStep.inBurst {state : MainState} {access : AccessRegs} (control : Control c)
    (main : MainStep c i state access)
    (burst : state = .writeCommandPush ∨ state = .writeCommand ∨ state = .ready) :
    c.command.cmdValid = true ∧ c.state ≠ .ready := by
  cases main with
  | begin idle valid free => exact ⟨valid, by rw [idle]; exact MainState.noConfusion⟩
  | push pushes free =>
    exact ⟨control.handling (Or.inl pushes), by rw [pushes]; exact MainState.noConfusion⟩
  | write writes writing unfinished =>
    exact ⟨control.handling (Or.inr (Or.inl writes)), by rw [writes]; exact MainState.noConfusion⟩
  | written writes done =>
    exact ⟨control.handling (Or.inr (Or.inl writes)), by rw [writes]; exact MainState.noConfusion⟩
  | complete wrNotRd | hold wrNotRd =>
    cases wrNotRd <;> rcases burst with no | no | no <;> cases no
  | rest | poll | request | await | capture | acknowledge | nothing | send | release =>
    rcases burst with no | no | no <;> cases no

theorem MainStep.control {state : MainState} {access : AccessRegs} (main : MainStep c i state access) :
    (state ≠ .readStatus → state ≠ .writeCommand → access.regState = .idle) ∧
      (state = .readStatus → access.regState.reading = true) ∧
      (state = .writeCommand → access.regState.writing = true) := by
  cases main with
  | rest idle invalid free | begin idle valid free =>
    exact ⟨fun _ _ => free, MainState.noConfusion, MainState.noConfusion⟩
  | poll idle invalid free | send wrNotRd pull idle free | release idle free =>
    exact ⟨fun no => absurd rfl no, fun _ => by rw [free]; rfl, MainState.noConfusion⟩
  | request =>
    exact ⟨fun no => absurd rfl no, fun _ => rfl, MainState.noConfusion⟩
  | await r reads before silent after | capture r reads before answered after
  | acknowledge r reads before after =>
    refine ⟨fun no => absurd rfl no, fun _ => ?_, MainState.noConfusion⟩
    rcases after with rfl | rfl <;> rfl
  | complete wrNotRd =>
    obtain ⟨notReads, -, notWrites, -⟩ := sendState_ne wrNotRd true
    exact ⟨fun _ _ => rfl, fun no => absurd no notReads, fun no => absurd no notWrites⟩
  | nothing => exact ⟨fun _ _ => rfl, MainState.noConfusion, MainState.noConfusion⟩
  | hold wrNotRd pull sends free =>
    obtain ⟨notReads, -, notWrites, -⟩ := sendState_ne wrNotRd false
    exact ⟨fun _ _ => free, fun no => absurd no notReads, fun no => absurd no notWrites⟩
  | push => exact ⟨fun _ no => absurd rfl no, MainState.noConfusion, fun _ => rfl⟩
  | write writes writing unfinished =>
    exact ⟨fun _ no => absurd rfl no, MainState.noConfusion,
      fun _ => (nextAccess_writing writing unfinished).1⟩
  | written => exact ⟨fun _ _ => rfl, MainState.noConfusion, MainState.noConfusion⟩

/-- A command is taken, kept or released. -/
theorem CommandStep.control {next : CmdRegs} {burst : Prop} (control : Control c)
    (command : CommandStep c i next)
    (continues : burst → c.command.cmdValid = true ∧ c.state ≠ .ready) :
    (next.cmdValid = true ↔ next.cmdState = .ackRd ∨ next.cmdState = .ackWr) ∧
      (burst → next.cmdValid = true) ∧
      ((next.rdReady || next.wrReady) = true → next.cmdValid = true ∧ ¬ burst) ∧
      (∀ drive, next.driveInc drive =
        ((next.rdReady || next.wrReady) && driveDecode next.cmd.drive drive)) ∧
      (next.rdReady = true → next.cmdWrNotRd = false ∧ next.wrReady = false) ∧
      (next.wrReady = true → next.cmdWrNotRd = true) ∧
      (next.cmdValid = true → next.cmd.drive.val < nvmeDrivesPresent) := by
  cases command with
  | takeRd idle offered present free =>
    refine ⟨⟨fun _ => Or.inl rfl, fun _ => rfl⟩, fun _ => rfl, fun _ => ⟨rfl, ?_⟩, fun _ => rfl,
      fun _ => ⟨rfl, rfl⟩, Bool.noConfusion, fun _ => present⟩
    intro inside
    rw [idle] at continues
    exact Bool.noConfusion (continues inside).1
  | takeWr idle offered present free =>
    refine ⟨⟨fun _ => Or.inr rfl, fun _ => rfl⟩, fun _ => rfl, fun _ => ⟨rfl, ?_⟩, fun _ => rfl,
      Bool.noConfusion, fun _ => rfl, fun _ => present⟩
    intro inside
    rw [idle] at continues
    exact Bool.noConfusion (continues inside).1
  | keep busy =>
    exact ⟨control.valid, fun inside => (continues inside).1, Bool.noConfusion, fun _ => rfl,
      Bool.noConfusion, Bool.noConfusion, control.present⟩
  | release cmdState final valid idle =>
    refine ⟨⟨Bool.noConfusion, ?_⟩, fun inside => absurd final (continues inside).2,
      Bool.noConfusion, fun _ => rfl, Bool.noConfusion, Bool.noConfusion, Bool.noConfusion⟩
    rcases idle with rfl | rfl <;> rintro (no | no) <;> cases no

/-- The cycle without a reset. -/
def advance (c : Controller) (i : Inputs) : Controller where
  state := c.nextState i
  command := c.nextCommand i
  counters := c.nextCounters
  fifo := c.nextFifo
  access := c.nextAccess i

theorem Control.advance (control : Control c) (i : Inputs) : Control (c.advance i) := by
  have main := main_step control i
  obtain ⟨resting, reading, writing⟩ := main.control
  obtain ⟨valid, handling, early, inc, fromRd, fromWr, present⟩ :=
    (nextCommand_step control i).control control (main.inBurst control)
  exact ⟨resting, reading, writing, valid, handling, early, inc, fromRd, fromWr, present⟩

theorem Control.not_fresh (control : Control c)
    (settled : c.command.cmdValid = false ∨ c.state = .ready) : c.fresh = false := by
  rw [← Bool.not_eq_true]
  intro fresh
  obtain ⟨valid, outside⟩ := control.early fresh
  rcases settled with idle | final
  · rw [idle] at valid
    cases valid
  · exact outside (Or.inr (Or.inr final))

theorem Control.inc_eq_false (control : Control c)
    (settled : c.command.cmdValid = false ∨ c.state = .ready) (drive : Drive) :
    c.command.driveInc drive = false := by
  rw [control.inc drive, control.not_fresh settled]
  rfl

end Controller

end MetalFs.Fpga
