import MetalFs.Fpga.NvmeAnswers

/-!
# Runs of the NVMe arbiter

The parts of the invariant hold after every run, a reset included.  `Bookkeeping` is what
they say about the counters, the queue, the bursts and the responses, and `remaining` bounds
the cycles until a command is done with.
-/

namespace MetalFs.Fpga

namespace Arbiter

open Controller

variable {a a' : Arbiter} {i : Inputs} {finished : List Command}

/-! ## The invariant -/

/-- The parts of the invariant. -/
structure Invariant (a : Arbiter) (finished : List Command) : Prop where
  control : Control a.controller
  tracked : Tracked a finished
  queued : Queued a
  answers : Answers a

theorem invariant_start (driveFree : Drive → Bool) : Invariant (start driveFree) [] where
  control := control_afterReset driveFree
  tracked := ⟨rfl, rfl, rfl, rfl, Bool.noConfusion, Bool.noConfusion⟩
  queued := by
    refine ⟨rfl, ?_, fun _ => rfl, fun _ => Nat.zero_le _, fun _ _ _ => Nat.succ_pos _, ?_⟩
    · intro k below
      cases below
    · intro item member
      cases member
  answers := by
    refine ⟨rfl, rfl, Nat.le_refl _, Bool.noConfusion, ?_, ?_⟩
    · intro k response found
      cases found
    · intro wrNotRd pull sends
      exact absurd sends (ne_sendState (Or.inl rfl) wrNotRd pull)

theorem Invariant.advance (inv : Invariant a finished) (admits : a.Admits i) :
    Invariant (a.advance i) (a.finishedNext finished) where
  control := inv.control.advance i
  tracked := inv.tracked.advance inv.control admits
  queued := inv.queued.advance inv.control i (inv.answers.pull_nonempty inv.tracked inv.queued)
  answers := inv.answers.advance inv.tracked inv.control inv.queued admits

/-- A cycle with a reset or without. -/
theorem step_cases (returned : a.step i = some a') :
    a.Admits i ∧ (i.reset = false ∧ a' = a.advance i ∨
      i.reset = true ∧ a' = start a.controller.counters.driveFree) := by
  unfold step at returned
  split at returned
  · rename_i admits
    refine ⟨admits, ?_⟩
    cases reset : i.reset with
    | false =>
      rw [Controller.clock, reset] at returned
      exact Or.inl ⟨rfl, (Option.some.inj returned).symm⟩
    | true =>
      rw [Controller.clock, reset] at returned
      exact Or.inr ⟨rfl, (Option.some.inj returned).symm⟩
  · cases returned

theorem invariant_of_run {driveFree : Drive → Bool} {inputs : List Inputs}
    (finished : Runs.run step (start driveFree) inputs = some a) :
    ∃ commands, Invariant a commands := by
  refine Runs.inv_of_steps (I := fun a => ∃ commands, Invariant a commands) ?_
    ⟨[], invariant_start driveFree⟩ finished
  rintro a i a' ⟨commands, inv⟩ returned
  obtain ⟨admits, ⟨-, rfl⟩ | ⟨-, rfl⟩⟩ := step_cases returned
  · exact ⟨_, inv.advance admits⟩
  · exact ⟨[], invariant_start _⟩

/-! ## What the invariant says -/

/-- The books of the arbiter. -/
structure Bookkeeping (a : Arbiter) : Prop where
  /-- The counters stay within the limit and are not decremented at zero. -/
  counters : ∀ drive, a.controller.counters.driveCounters drive ≤ nvmeCmdCounterLimit
  noUnderflow : ∀ drive, a.controller.driveDec drive = true →
    0 < a.controller.counters.driveCounters drive
  /-- The position counts the commands that were pushed and not yet pulled. -/
  position : a.controller.fifo.fifoPos + a.history.pulls = a.history.pushes.length
  capacity : a.controller.fifo.fifoPos ≤ 436
  nonempty : a.controller.fifoPull = true → 0 < a.controller.fifo.fifoPos
  apart : ¬ (a.controller.fifoPush = true ∧ a.controller.fifoPull = true)
  /-- Commands are pushed and written in order, each once; only the last may be under way. -/
  pushed : a.history.pushes <+: a.history.accepted.map Command.item
  written : a.history.beats <+: a.history.accepted.flatMap Command.burst
  addressed : a.history.addresses ≤ a.history.accepted.length
  underway : a.history.accepted.length ≤ a.history.pushes.length + 1 ∧
    a.history.accepted.length ≤ a.history.addresses + 1 ∧
    a.history.accepted.dropLast.flatMap Command.burst <+: a.history.beats
  settled : a.controller.command.cmdValid = false →
    a.history.pushes = a.history.accepted.map Command.item ∧
      a.history.beats = a.history.accepted.flatMap Command.burst ∧
      a.history.addresses = a.history.accepted.length
  /-- Responses are sent once for each completion, in the order of the commands. -/
  answered : a.history.responses.length ≤ a.history.completions.length ∧
    a.history.completions.length ≤ a.history.responses.length + 1
  responses : ∀ (k : Nat) (response : Response), a.history.responses[k]? = some response →
    ∃ (command : Command) (status : Nat), a.history.accepted[k]? = some command ∧
      a.history.completions[k]? = some status ∧
        response = ⟨command.wrNotRd, (bit status 1).toNat⟩

/-- The commands that were handed over are those done with and the one under way. -/
theorem Invariant.accepted (inv : Invariant a finished) : a.history.accepted =
    finished ++ eventIf (a.controller.command.cmdValid && !a.controller.fresh)
      a.controller.current := by
  have accepted := inv.tracked.accepted
  cases fresh : a.controller.fresh with
  | false =>
    rw [fresh, eventIf_false, List.append_nil] at accepted
    rw [accepted, Bool.not_false, Bool.and_true]
  | true =>
    rw [fresh, (inv.control.early fresh).1] at accepted
    rw [Bool.not_true, Bool.and_false, eventIf_false, List.append_nil]
    exact List.append_cancel_right accepted

/-- The command under way was handed over before it is pushed. -/
theorem Invariant.handed (inv : Invariant a finished) (pushed : a.controller.pushed = true) :
    a.history.accepted = finished ++ [a.controller.current] := by
  have inside : a.controller.inBurst := Or.inr (of_decide_eq_true pushed)
  have notFresh : a.controller.fresh = false := by
    rw [← Bool.not_eq_true]
    exact fun fresh => (inv.control.early fresh).2 inside
  rw [inv.accepted, inv.control.handling inside, notFresh]
  rfl

/-- Either the command under way is not yet pushed, or it was handed over and is. -/
theorem Invariant.progress_cases (inv : Invariant a finished) :
    (a.history.pushes = finished.map Command.item ∧
        a.history.beats = finished.flatMap Command.burst ∧
        a.history.addresses = finished.length) ∨
      (a.history.accepted = finished ++ [a.controller.current] ∧
        a.history.pushes = a.history.accepted.map Command.item ∧
        a.history.beats = finished.flatMap Command.burst ++
          a.controller.current.burst.take a.controller.beatsDone ∧
        a.history.addresses = finished.length + a.controller.addressDone.toNat) := by
  have pushes := inv.tracked.pushes
  have beats := inv.tracked.beats
  have addresses := inv.tracked.addresses
  cases pushed : a.controller.pushed with
  | true =>
    have handed := inv.handed pushed
    rw [pushed, eventIf_true, ← handed] at pushes
    exact Or.inr ⟨handed, pushes, beats, addresses⟩
  | false =>
    have outside := of_decide_eq_false pushed
    rw [not_or] at outside
    obtain ⟨-, noBeat, noAddress, -⟩ := not_pushed outside.1 outside.2
    rw [pushed, eventIf_false, List.append_nil] at pushes
    rw [noBeat, List.take_zero, List.append_nil] at beats
    rw [noAddress, Bool.toNat_false, Nat.add_zero] at addresses
    exact Or.inl ⟨pushes, beats, addresses⟩

/-- The commands that are done with were handed over, and at most one more. -/
theorem Invariant.finished_le (inv : Invariant a finished) :
    finished <+: a.history.accepted ∧ a.history.accepted.length ≤ finished.length + 1 ∧
      a.history.accepted.dropLast <+: finished := by
  rw [inv.accepted]
  cases a.controller.command.cmdValid && !a.controller.fresh with
  | false =>
    rw [eventIf_false, List.append_nil]
    exact ⟨List.prefix_refl _, Nat.le_succ _, List.dropLast_prefix _⟩
  | true =>
    rw [eventIf_true, List.dropLast_concat, List.length_append, List.length_singleton]
    exact ⟨List.prefix_append _ _, Nat.le_refl _, List.prefix_refl _⟩

theorem flatMap_burst_isInitial {commands commands' : List Command} (order : commands <+: commands') :
    commands.flatMap Command.burst <+: commands'.flatMap Command.burst := by
  obtain ⟨rest, rfl⟩ := order
  rw [List.flatMap_append]
  exact List.prefix_append _ _

/-- The bursts of the commands that are done with were written. -/
theorem Invariant.written (inv : Invariant a finished) :
    finished.map Command.item <+: a.history.pushes ∧
      finished.flatMap Command.burst <+: a.history.beats ∧
      finished.length ≤ a.history.addresses := by
  rcases inv.progress_cases with ⟨pushes, beats, addresses⟩ | ⟨accepted, pushes, beats, addresses⟩
  · rw [pushes, beats, addresses]
    exact ⟨List.prefix_refl _, List.prefix_refl _, Nat.le_refl _⟩
  · rw [pushes, beats, addresses, accepted]
    exact ⟨(List.prefix_append _ _).map _, List.prefix_append _ _, Nat.le_add_right _ _⟩

/-- Commands are pushed and written in order, each once. -/
theorem Invariant.commands_in_order (inv : Invariant a finished) :
    a.history.pushes <+: a.history.accepted.map Command.item ∧
      a.history.beats <+: a.history.accepted.flatMap Command.burst ∧
      a.history.addresses ≤ a.history.accepted.length := by
  have before := inv.finished_le.1
  rcases inv.progress_cases with ⟨pushes, beats, addresses⟩ | ⟨accepted, pushes, beats, addresses⟩
  · rw [pushes, beats, addresses]
    exact ⟨before.map _, flatMap_burst_isInitial before, before.length_le⟩
  · rw [pushes, beats, addresses, accepted, List.flatMap_append, List.flatMap_singleton,
      List.length_append, List.length_singleton]
    refine ⟨List.prefix_refl _, ?_, Nat.add_le_add_left (Bool.toNat_le _) _⟩
    exact (List.prefix_append_right_inj _).mpr (List.take_prefix _ _)

/-- Without a command in the registers all are done with. -/
theorem Invariant.settled (inv : Invariant a finished)
    (idle : a.controller.command.cmdValid = false) :
    a.history.pushes = a.history.accepted.map Command.item ∧
      a.history.beats = a.history.accepted.flatMap Command.burst ∧
      a.history.addresses = a.history.accepted.length := by
  have accepted := inv.accepted
  rw [idle, Bool.false_and, eventIf_false, List.append_nil] at accepted
  rcases inv.progress_cases with ⟨pushes, beats, addresses⟩ | ⟨handed, -⟩
  · rw [accepted]
    exact ⟨pushes, beats, addresses⟩
  · rw [accepted] at handed
    have longer := congrArg List.length handed
    rw [List.length_append, List.length_singleton] at longer
    omega

theorem Invariant.bookkeeping (inv : Invariant a finished) : Bookkeeping a := by
  have nonempty := inv.answers.pull_nonempty inv.tracked inv.queued
  have completed := inv.answers.completed
  have sent := inv.answers.sent
  obtain ⟨pushed, written, addressed⟩ := inv.commands_in_order
  obtain ⟨-, oneMore, butLast⟩ := inv.finished_le
  obtain ⟨pushedBefore, writtenBefore, addressedBefore⟩ := inv.written
  refine
    { counters := fun drive => (Nat.le_add_right _ _).trans (inv.queued.limit drive)
      noUnderflow := fun drive => inv.queued.counter_pos inv.control nonempty
      position := inv.queued.position
      capacity := inv.queued.capacity
      nonempty := nonempty
      apart := not_push_and_pull a.controller
      pushed := pushed
      written := written
      addressed := addressed
      underway := ⟨?_, by omega, (flatMap_burst_isInitial butLast).trans writtenBefore⟩
      settled := inv.settled
      answered := ?_
      responses := ?_ }
  · have length := pushedBefore.length_le
    rw [List.length_map] at length
    omega
  · have exclusive : a.controller.reporting.toNat + a.controller.sending.toNat ≤ 1 := by
      by_cases sends : a.controller.Sends
      · obtain ⟨wrNotRd, pull, sends⟩ := sends
        obtain ⟨-, reporting, sending⟩ := sends_eq sends
        rw [reporting, sending]
        cases pull <;> decide
      · rw [(not_sends_eq sends).2.1]
        exact Bool.toNat_le _
    omega
  · intro k response found
    obtain ⟨item, status, queued, completion, same⟩ := inv.answers.responses k response found
    have listed : (a.history.accepted.map Command.item)[k]? = some item := by
      obtain ⟨rest, whole⟩ := pushed
      rw [← whole, List.getElem?_append_left (List.getElem?_eq_some_iff.mp queued).1]
      exact queued
    rw [List.getElem?_map, Option.map_eq_some_iff] at listed
    obtain ⟨command, handed, rfl⟩ := listed
    exact ⟨command, status, handed, completion, same⟩

/-! ## Commands are done with -/

end Arbiter

namespace Controller

/-- The environment gives the register access a signal it waits for. -/
def accessServed (r : RegState) (i : Inputs) : Bool :=
  match r with
  | .rdStatusAR => i.arReady || i.rValid
  | .rdStatusA => i.arReady
  | .rdStatusR => i.rValid
  | .wrAW _ => i.awReady || i.wReady
  | .wrW _ => i.wReady
  | .wrDoneA => i.awReady
  | _ => true

/-- The environment gives a signal that the controller waits for, or it waits for none. -/
def served (c : Controller) (i : Inputs) : Bool :=
  match c.state with
  | .sendResRdPull | .sendResRd => i.rspRdReady
  | .sendResWrPull | .sendResWr => i.rspWrReady
  | _ => accessServed c.access.regState i

/-- The steps that are left of reading the status. -/
def readRemaining (access : AccessRegs) : Nat :=
  match access.regState with
  | .done => 12 + if bit access.regStatus 0 then 7 else 0
  | .rdStatusA => 13 + if bit access.regStatus 0 then 7 else 0
  | .rdStatusR => 14
  | .rdStatusAR => 15
  | _ => 16

/-- The steps that are left for the command in the registers, if no further completion is
reported. -/
def remaining (c : Controller) : Nat :=
  match c.state with
  | .ready => 1
  | .writeCommand =>
    2 + (6 - c.access.regState.beatsDone) + (!c.access.regState.addressDone).toNat
  | .writeCommandPush => 10
  | .idle => 11
  | .readStatus => readRemaining c.access
  | .sendResRd | .sendResWr => 17
  | .sendResRdPull | .sendResWrPull => 18

/-- The states between two bursts, in which completions are looked for. -/
def between (c : Controller) : Bool :=
  match c.state with
  | .writeCommandPush | .writeCommand | .ready => false
  | _ => true

variable {c : Controller} {i : Inputs}

theorem remaining_of_sends {wrNotRd pull : Bool} (sends : c.state = sendState wrNotRd pull) :
    c.remaining = 17 + pull.toNat ∧ c.between = true ∧ c.served i = i.rspReady wrNotRd := by
  unfold remaining between served
  rw [sends]
  cases wrNotRd <;> cases pull <;> exact ⟨rfl, rfl, rfl⟩

theorem remaining_of_readStatus (reads : c.state = .readStatus) :
    c.remaining = readRemaining c.access ∧ c.between = true ∧
      c.served i = accessServed c.access.regState i := by
  unfold remaining between served
  rw [reads]
  exact ⟨rfl, rfl, rfl⟩

theorem index_lt (word : BurstWord) : word.index < 6 := by
  cases word <;> decide

/-- The steps left while a burst is written. -/
theorem remaining_write (writes : c.state = .writeCommand)
    (writing : c.access.regState.writing = true) (unfinished : c.access.regState ≠ .done) :
    2 + (6 - (c.nextAccess i).regState.beatsDone) +
        (!(c.nextAccess i).regState.addressDone).toNat + (c.served i).toNat ≤ c.remaining := by
  obtain ⟨-, beats, address⟩ := @nextAccess_writing c i writing unfinished
  have served_eq : c.served i = accessServed c.access.regState i := by
    unfold served
    rw [writes]
  have remaining_eq : c.remaining =
      2 + (6 - c.access.regState.beatsDone) + (!c.access.regState.addressDone).toNat := by
    unfold remaining
    rw [writes]
  rw [beats, address, served_eq, remaining_eq]
  cases access : c.access.regState with
  | wrAW word =>
    have below := index_lt word
    change 2 + (6 - (word.index + (true && i.wReady).toNat)) + (!(false || true && i.awReady)).toNat +
      (i.awReady || i.wReady).toNat ≤ 2 + (6 - word.index) + 1
    cases i.awReady <;> cases i.wReady <;> simp <;> omega
  | wrW word =>
    have below := index_lt word
    change 2 + (6 - (word.index + (true && i.wReady).toNat)) + 0 + i.wReady.toNat ≤
      2 + (6 - word.index) + 0
    cases i.wReady
    · simp
    · simp
      omega
  | wrDoneA =>
    change 2 + (6 - (6 + (false && i.wReady).toNat)) + (!(false || true && i.awReady)).toNat +
      i.awReady.toNat ≤ 3
    cases i.awReady
    · simp
    · simp
  | done => exact absurd access unfinished
  | _ =>
    rw [access] at writing
    cases writing

/-- The steps left while the status is read; a completion that is reported adds some. -/
theorem readRemaining_advance (reads : c.state = .readStatus)
    (reading : c.access.regState.reading = true) (unfinished : c.access.regState ≠ .done) :
    readRemaining (c.nextAccess i) + (accessServed c.access.regState i).toNat ≤
      readRemaining c.access + 8 * (c.rReady && i.rValid && bit i.rData 0).toNat := by
  unfold nextAccess regDoRdStatus readRemaining accessServed rReady
  rw [reads]
  cases access : c.access.regState with
  | idle => simp
  | rdStatusAR =>
    cases i.arReady <;> cases i.rValid <;> cases completed : bit i.rData 0 <;>
      simp [access, completed]
  | rdStatusA =>
    cases i.arReady <;> cases completed : bit c.access.regStatus 0 <;> simp [access, completed]
  | rdStatusR => cases i.rValid <;> cases completed : bit i.rData 0 <;> simp [access, completed]
  | done => exact absurd access unfinished
  | _ =>
    rw [access] at reading
    cases reading

end Controller

namespace Arbiter

open Controller

variable {a a' : Arbiter} {i : Inputs} {finished : List Command}

/-- The bursts that were written and whose completion was not reported. -/
def outstanding (a : Arbiter) : Nat := a.history.burstsWritten - a.history.completions.length

/-- The steps that are left for the command in the registers. -/
def rank (a : Arbiter) : Nat :=
  a.controller.remaining + if a.controller.between then 8 * a.outstanding else 0

theorem advance_outstanding (control : Control a.controller) (admits : a.Admits i)
    (outside : a.controller.state ≠ .writeCommand) :
    (a.advance i).outstanding + (a.reports i).toNat = a.outstanding := by
  obtain ⟨noBeat, noAddress⟩ := control.no_beat outside
  have written : (a.advance i).history.burstsWritten = a.history.burstsWritten := by
    change (a.record i).burstsWritten = a.history.burstsWritten
    unfold History.burstsWritten record
    dsimp only
    rw [noAddress, no_beats noBeat, List.append_nil, Bool.false_and, Bool.toNat_false, Nat.add_zero]
  have completions : (a.advance i).history.completions =
    a.history.completions ++ eventIf (a.reports i) i.rData := rfl
  unfold outstanding
  rw [written, completions, List.length_append]
  cases reports : a.reports i with
  | false => rfl
  | true =>
    have room := admits.completes reports
    rw [eventIf_true, List.length_singleton, Bool.toNat_true]
    omega

/-- While the status is read. -/
theorem Invariant.rank_read (inv : Invariant a finished) (admits : a.Admits i)
    (reads : a.controller.state = .readStatus) (unfinished : a.controller.access.regState ≠ .done)
    (after : (a.advance i).controller.state = .readStatus) :
    (a.advance i).rank + (a.controller.served i).toNat ≤ a.rank := by
  have left := readRemaining_advance (i := i) reads (inv.control.reading reads) unfinished
  have fewer := advance_outstanding inv.control admits (by rw [reads]; exact MainState.noConfusion)
  obtain ⟨before, between, served⟩ := @remaining_of_readStatus _ i reads
  obtain ⟨later, between', -⟩ := @remaining_of_readStatus _ i after
  unfold rank
  rw [before, between, served, later, between', if_pos rfl, if_pos rfl]
  change readRemaining (a.advance i).controller.access + _ ≤ _ + 8 * (a.reports i).toNat at left
  omega

theorem Invariant.rank_advance (inv : Invariant a finished) (admits : a.Admits i)
    (valid : a.controller.command.cmdValid = true) (busy : a.controller.state ≠ .ready) :
    (a.advance i).rank + (a.controller.served i).toNat ≤ a.rank := by
  have main : MainStep a.controller i (a.advance i).controller.state
    (a.advance i).controller.access := main_step inv.control i
  have once := Bool.toNat_le (a.controller.served i)
  obtain ⟨state, stateEq⟩ : ∃ state, (a.advance i).controller.state = state := ⟨_, rfl⟩
  obtain ⟨access, accessEq⟩ : ∃ access, (a.advance i).controller.access = access := ⟨_, rfl⟩
  rw [stateEq, accessEq] at main
  cases main with
  | rest idle invalid | poll idle invalid =>
    rw [valid] at invalid
    cases invalid
  | begin idle =>
    simp only [rank, remaining, between, stateEq, idle]
    simp only [Bool.false_eq_true, if_false, if_true]
    omega
  | request reads free =>
    exact inv.rank_read admits reads (by rw [free]; exact RegState.noConfusion) stateEq
  | await r reads before | capture r reads before =>
    refine inv.rank_read admits reads ?_ stateEq
    rcases before with before | before <;> rw [before] <;> exact RegState.noConfusion
  | acknowledge r reads before =>
    exact inv.rank_read admits reads (by rw [before]; exact RegState.noConfusion) stateEq
  | complete wrNotRd reads done completed =>
    have fewer := advance_outstanding inv.control admits
      (by rw [reads]; exact MainState.noConfusion)
    obtain ⟨before, between, -⟩ := @remaining_of_readStatus _ i reads
    obtain ⟨later, between', -⟩ := @remaining_of_sends _ i _ _ stateEq
    unfold rank
    rw [before, between, later, between', if_pos rfl, if_pos rfl, readRemaining, done]
    simp only [completed, if_true, Bool.toNat_true]
    omega
  | nothing reads done =>
    have fewer := advance_outstanding inv.control admits
      (by rw [reads]; exact MainState.noConfusion)
    obtain ⟨before, between, -⟩ := @remaining_of_readStatus _ i reads
    unfold rank
    rw [before, between, if_pos rfl, readRemaining, done]
    simp only [remaining, Controller.between, stateEq, if_true]
    omega
  | send wrNotRd pull sends free accepted =>
    have fewer := advance_outstanding inv.control admits
      (by rw [sends]; exact (sendState_ne wrNotRd pull).2.2.1)
    obtain ⟨before, between, served⟩ := @remaining_of_sends _ i _ _ sends
    obtain ⟨later, between', -⟩ := @remaining_of_readStatus _ i stateEq
    unfold rank
    rw [before, between, later, between', if_pos rfl, if_pos rfl, accessEq, readRemaining, free]
    dsimp only
    omega
  | hold wrNotRd pull sends free refused =>
    have fewer := advance_outstanding inv.control admits
      (by rw [sends]; exact (sendState_ne wrNotRd pull).2.2.1)
    obtain ⟨before, between, served⟩ := @remaining_of_sends _ i _ _ sends
    obtain ⟨later, between', -⟩ := @remaining_of_sends _ i _ _ stateEq
    unfold rank
    rw [before, between, served, later, between', if_pos rfl, if_pos rfl, refused,
      Bool.toNat_false]
    omega
  | push pushes =>
    simp only [rank, remaining, between, stateEq, accessEq, pushes]
    simp only [Bool.false_eq_true, if_false, RegState.beatsDone, RegState.addressDone,
      BurstWord.index, Bool.not_false, Bool.toNat_true]
    omega
  | write writes writing unfinished =>
    have left := remaining_write (i := i) writes writing unfinished
    simp only [rank, between, stateEq, writes, Bool.false_eq_true, if_false, Nat.add_zero]
    rw [remaining, stateEq]
    exact left
  | written writes done =>
    simp only [rank, remaining, between, stateEq, writes, done, Bool.false_eq_true, if_false,
      Nat.add_zero]
    simp only [RegState.beatsDone, RegState.addressDone, Bool.not_true, Bool.toNat_false]
    omega
  | release final => exact absurd final busy

theorem Invariant.outstanding_le (inv : Invariant a finished) : a.outstanding ≤ 436 := by
  have written := inv.tracked.burstsWritten_le
  have position := inv.queued.position
  have capacity := inv.queued.capacity
  have completed := inv.answers.completed
  unfold outstanding
  omega

theorem Invariant.rank_le (inv : Invariant a finished) : a.rank ≤ 3508 := by
  have few := inv.outstanding_le
  have left : a.controller.remaining ≤ 20 := by
    unfold remaining readRemaining
    have once := Bool.toNat_le (!a.controller.access.regState.addressDone)
    cases a.controller.state with
    | readStatus =>
      dsimp only
      split <;> try split
      all_goals omega
    | _ =>
      dsimp only
      omega
  unfold rank
  split <;> omega

/-- Without a reset commands are only added. -/
theorem advance_accepted_initial (a : Arbiter) (i : Inputs) :
    a.history.accepted <+: (a.advance i).history.accepted := by
  change a.history.accepted <+: a.history.accepted ++ _ ++ _
  rw [List.append_assoc]
  exact List.prefix_append _ _

/-- A cycle without a reset. -/
theorem advance_of_step (returned : a.step i = some a') (running : i.reset = false) :
    a.Admits i ∧ a' = a.advance i := by
  obtain ⟨admits, ⟨-, same⟩ | ⟨reset, -⟩⟩ := step_cases returned
  · exact ⟨admits, same⟩
  · rw [running] at reset
    cases reset

/-- The commands that were handed over come to be done with. -/
theorem Invariant.finished_of_run (inv : Invariant a finished) {later : List Inputs}
    (running : ∀ i ∈ later, i.reset = false) (run : Runs.run step a later = some a')
    (enough : 3508 < Runs.countSteps step (fun a i => a.controller.served i) a later) :
    ∃ finished', Invariant a' finished' ∧ a.history.accepted <+: finished' := by
  obtain ⟨commands, same⟩ : ∃ commands, a.history.accepted = commands := ⟨_, rfl⟩
  rw [same]
  have small := inv.rank_le
  have reached := Runs.reaches_of_run
    (I := fun a => (∃ finished, Invariant a finished) ∧ commands <+: a.history.accepted)
    (G := fun a => ∃ finished, Invariant a finished ∧ commands <+: finished) rank
    (fun a i => a.controller.served i) ?_ ⟨⟨finished, inv⟩, same ▸ List.prefix_refl _⟩ running run
  · rcases reached.2 with goal | ⟨-, left⟩
    · exact goal
    · omega
  · rintro a i a' ⟨⟨finished, inv⟩, order⟩ quiet returned
    obtain ⟨admits, rfl⟩ := advance_of_step returned quiet
    refine ⟨⟨⟨_, inv.advance admits⟩, order.trans (advance_accepted_initial a i)⟩, ?_⟩
    by_cases goal : ∃ finished, Invariant a finished ∧ commands <+: finished
    · obtain ⟨finished, inv, done⟩ := goal
      exact Or.inl ⟨_, inv.advance admits, done.trans (List.prefix_append _ _)⟩
    · have accepted := inv.accepted
      cases underway : a.controller.command.cmdValid && !a.controller.fresh with
      | false =>
        rw [underway, eventIf_false, List.append_nil] at accepted
        exact absurd ⟨finished, inv, accepted ▸ order⟩ goal
      | true =>
        rw [underway, eventIf_true] at accepted
        by_cases final : a.controller.state = .ready
        · refine Or.inl ⟨_, inv.advance admits, ?_⟩
          rw [finishedNext, (ready_pushed final).2.2.2.1, eventIf_true, ← accepted]
          exact order
        · exact Or.inr ⟨goal, inv.rank_advance admits (Bool.and_eq_true_iff.mp underway).1 final⟩

/-! ## Completions are answered -/

/-- The steps that are left until the response to a completion that was reported. -/
def answerRemaining (c : Controller) : Nat :=
  match c.state with
  | .readStatus => if c.access.regState = .rdStatusA then 4 else 3
  | .sendResRdPull | .sendResWrPull => 2
  | _ => 1

theorem answerRemaining_of_sends {c : Controller} {wrNotRd pull : Bool}
    (sends : c.state = sendState wrNotRd pull) : answerRemaining c = 1 + pull.toNat := by
  unfold answerRemaining
  rw [sends]
  cases wrNotRd <;> cases pull <;> rfl

/-- A completion that was reported comes closer to its response. -/
theorem Invariant.answer_advance (inv : Invariant a finished)
    (due : (a.controller.reporting || a.controller.sending) = true) (i : Inputs) :
    a.history.responses.length < (a.advance i).history.responses.length ∨
      answerRemaining (a.advance i).controller + (a.controller.served i).toNat ≤
        answerRemaining a.controller := by
  by_cases sends : a.controller.Sends
  · obtain ⟨wrNotRd, pull, sends⟩ := sends
    have responses : (a.advance i).history.responses = _ := record_responses_of_sends sends i
    have next : (a.advance i).controller.state = _ := nextState_of_sends (i := i) sends
    have served := (@remaining_of_sends _ i _ _ sends).2.2
    cases ready : i.rspReady wrNotRd with
    | true =>
      rw [responses, ready, eventIf_true, List.length_append]
      exact Or.inl (Nat.lt_succ_self _)
    | false =>
      rw [ready] at next
      rw [answerRemaining_of_sends sends, answerRemaining_of_sends next, served, ready]
      exact Or.inr (Nat.le_add_right _ _)
  · refine Or.inr ?_
    have main := main_step inv.control i
    rw [(not_sends_eq sends).2.1, Bool.or_false, reporting_eq sends, Bool.and_eq_true,
      Bool.and_eq_true, decide_eq_true_eq] at due
    obtain ⟨⟨reads, captured⟩, news⟩ := due
    have served := (@remaining_of_readStatus _ i reads).2.2
    have before : answerRemaining a.controller =
        if a.controller.access.regState = .rdStatusA then 4 else 3 := by
      rw [answerRemaining, reads]
    rw [before, served]
    cases access : a.controller.access.regState with
    | rdStatusA =>
      have next : (a.advance i).controller.state = .readStatus := by
        change a.controller.nextState i = .readStatus
        simp [nextState, reads, regDone, access]
      have moved : (a.advance i).controller.access.regState =
          if i.arReady then .done else .rdStatusA := by
        change (a.controller.nextAccess i).regState = _
        rw [nextAccess, access]
        cases i.arReady
        · exact access
        · rfl
      rw [answerRemaining, next, accessServed, moved]
      cases i.arReady <;> simp
    | done =>
      have next : (a.advance i).controller.state = sendState a.controller.fifoOut.wrNotRd true := by
        change a.controller.nextState i = _
        cases stream : a.controller.fifoOut.wrNotRd <;>
          simp [nextState, reads, regDone, access, news, stream, sendState]
      rw [answerRemaining_of_sends next, if_neg RegState.noConfusion]
      exact Nat.le_refl _
    | _ =>
      rw [access] at captured
      cases captured

/-- The completions that were reported come to be answered. -/
theorem Invariant.answered_of_run (inv : Invariant a finished) {later : List Inputs}
    (running : ∀ i ∈ later, i.reset = false) (run : Runs.run step a later = some a')
    (enough : 4 < Runs.countSteps step (fun a i => a.controller.served i) a later) :
    a.history.completions.length ≤ a'.history.responses.length := by
  obtain ⟨count, same⟩ : ∃ count, a.history.completions.length = count := ⟨_, rfl⟩
  rw [same]
  have small : answerRemaining a.controller ≤ 4 := by
    unfold answerRemaining
    cases a.controller.state with
    | readStatus =>
      dsimp only
      split <;> omega
    | _ =>
      dsimp only
      omega
  have reached := Runs.reaches_of_run
    (I := fun a => (∃ finished, Invariant a finished) ∧ count ≤ a.history.completions.length)
    (G := fun a => count ≤ a.history.responses.length) (fun a => answerRemaining a.controller)
    (fun a i => a.controller.served i) ?_ ⟨⟨finished, inv⟩, same.ge⟩ running run
  · rcases reached.2 with goal | ⟨-, left⟩
    · exact goal
    · omega
  · rintro a i a' ⟨⟨finished, inv⟩, reported⟩ quiet returned
    obtain ⟨admits, rfl⟩ := advance_of_step returned quiet
    have completions : a.history.completions.length ≤ (a.advance i).history.completions.length := by
      change _ ≤ (a.history.completions ++ _).length
      rw [List.length_append]
      exact Nat.le_add_right _ _
    have responses : a.history.responses.length ≤ (a.advance i).history.responses.length := by
      change _ ≤ (a.history.responses ++ _ ++ _).length
      rw [List.append_assoc, List.length_append]
      exact Nat.le_add_right _ _
    refine ⟨⟨⟨_, inv.advance admits⟩, reported.trans completions⟩, ?_⟩
    by_cases goal : count ≤ a.history.responses.length
    · exact Or.inl (goal.trans responses)
    · have completed := inv.answers.completed
      have sent := inv.answers.sent
      have due : (a.controller.reporting || a.controller.sending) = true := by
        rw [← Bool.not_eq_false]
        intro none
        rw [Bool.or_eq_false_iff] at none
        rw [none.1, Bool.toNat_false] at completed
        rw [none.2, Bool.toNat_false] at sent
        omega
      rcases inv.answer_advance due i with more | closer
      · have oneMore := inv.bookkeeping.answered.2
        exact Or.inl (by omega)
      · exact Or.inr ⟨goal, closer⟩

/-- What was handed over and reported by `a` is pushed, written and answered by `a'`. -/
structure Carried (a a' : Arbiter) : Prop where
  pushed : a.history.accepted.map Command.item <+: a'.history.pushes
  written : a.history.accepted.flatMap Command.burst <+: a'.history.beats
  addressed : a.history.accepted.length ≤ a'.history.addresses
  answered : a.history.completions.length ≤ a'.history.responses.length

/-- After every run the books are right, and when the environment goes on to give the signals
that the controller waits for, what was handed over is carried out. -/
theorem bookkeeping_of_run (driveFree : Drive → Bool) (inputs : List Inputs) (a : Arbiter)
    (run : Runs.run step (start driveFree) inputs = some a) :
    Bookkeeping a ∧ ∀ (later : List Inputs) (a' : Arbiter), Runs.run step a later = some a' →
      (∀ i ∈ later, i.reset = false) →
      3508 < Runs.countSteps step (fun a i => a.controller.served i) a later → Carried a a' := by
  obtain ⟨finished, inv⟩ := invariant_of_run run
  refine ⟨inv.bookkeeping, ?_⟩
  intro later a' continues running enough
  obtain ⟨finished', inv', carried⟩ := inv.finished_of_run running continues enough
  obtain ⟨pushed, written, addressed⟩ := inv'.written
  exact
    { pushed := (carried.map _).trans pushed
      written := (flatMap_burst_isInitial carried).trans written
      addressed := carried.length_le.trans addressed
      answered := inv.answered_of_run running continues (by omega) }

/-- A cycle in which the slaves are ready and the status register holds `status`. -/
def readyInputs (status : Nat) : Inputs :=
  ⟨false, false, 0, false, 0, true, true, true, true, status, true, true⟩

/-- A read command is offered, written, completed and answered. -/
def readInputs : List Inputs :=
  List.replicate 2 { readyInputs 0 with cmdRdValid := true, cmdRdData := 7 + 3 * 2 ^ 64 + 2 ^ 128 } ++
    List.replicate 10 (readyInputs 0) ++ readyInputs 1 :: List.replicate 2 (readyInputs 0)

theorem bookkeeping_of_read : ∃ a, Runs.run step (start fun _ => true) readInputs = some a ∧
    a.history.accepted = [⟨false, ⟨7, 0, 3, 1⟩⟩] ∧ a.history.responses = [⟨false, 0⟩] ∧
      Bookkeeping a := by
  have returned : (Runs.run step (start fun _ => true) readInputs).map
      (fun a => (a.history.accepted, a.history.responses)) =
        some ([⟨false, ⟨7, 0, 3, 1⟩⟩], [⟨false, 0⟩]) := by
    decide +kernel
  obtain ⟨a, run, same⟩ := Option.map_eq_some_iff.mp returned
  exact ⟨a, run, congrArg Prod.fst same, congrArg Prod.snd same,
    (bookkeeping_of_run (fun _ => true) readInputs a run).1⟩

end Arbiter

end MetalFs.Fpga
