import MetalFs.Fpga.NvmeControl

/-!
# Bookkeeping of the NVMe arbiter

`Tracked` ties the queue and the bursts to the commands that were handed over on the
streams, `Queued` the counters to the queue.
-/

namespace MetalFs.Fpga

/-! ## The commands and their bursts -/

/-- The entry of the queue for a command. -/
def Command.item (command : Command) : FifoItem := ⟨command.cmd.drive, command.wrNotRd⟩

/-- The register burst for a command. -/
def Command.burst (command : Command) : List Beat :=
  [BurstWord.bufLo, .bufHi, .blkLo, .blkHi, .cnt, .cmd].map command.beat

@[simp] theorem eventIf_true {α : Type} (event : α) : eventIf true event = [event] := rfl

@[simp] theorem eventIf_false {α : Type} (event : α) : eventIf false event = [] := rfl

theorem Command.burst_take (command : Command) (word : BurstWord) :
    command.burst.take (word.index + 1) = command.burst.take word.index ++ [command.beat word] := by
  cases word <;> rfl

namespace Controller

variable {c : Controller} {i : Inputs}

/-- The command in the registers. -/
def current (c : Controller) : Command := ⟨c.command.cmdWrNotRd, c.command.cmd⟩

/-- The command in the registers is in the queue. -/
def pushed (c : Controller) : Bool := c.state = .writeCommand ∨ c.state = .ready

/-- The words of its burst that are written. -/
def beatsDone (c : Controller) : Nat :=
  match c.state with
  | .writeCommand => c.access.regState.beatsDone
  | .ready => 6
  | _ => 0

/-- The address of its burst is accepted. -/
def addressDone (c : Controller) : Bool :=
  match c.state with
  | .writeCommand => c.access.regState.addressDone
  | .ready => true
  | _ => false

/-- During a burst the command stays. -/
theorem current_advance (control : Control c) (valid : c.command.cmdValid = true)
    (busy : c.state ≠ .ready) : (c.advance i).current = c.current := by
  have command := nextCommand_step control i
  have same : c.nextCommand i = c.quiet := by
    generalize c.nextCommand i = next at command
    cases command with
    | takeRd idle | takeWr idle =>
      rw [idle] at valid
      cases valid
    | keep => rfl
    | release cmdState final => exact absurd final busy
  unfold current advance
  rw [same]
  rfl

theorem writeCommand_pushed (writes : c.state = .writeCommand) :
    c.pushed = true ∧ c.beatsDone = c.access.regState.beatsDone ∧
      c.addressDone = c.access.regState.addressDone ∧ c.cmdReady = false ∧ c.fifoPush = false := by
  unfold pushed beatsDone addressDone cmdReady fifoPush
  rw [writes]
  exact ⟨rfl, rfl, rfl, rfl, rfl⟩

theorem ready_pushed (final : c.state = .ready) :
    c.pushed = true ∧ c.beatsDone = 6 ∧ c.addressDone = true ∧ c.cmdReady = true ∧
      c.fifoPush = false := by
  unfold pushed beatsDone addressDone cmdReady fifoPush
  rw [final]
  exact ⟨rfl, rfl, rfl, rfl, rfl⟩

theorem not_pushed (notWrites : c.state ≠ .writeCommand) (notFinal : c.state ≠ .ready) :
    c.pushed = false ∧ c.beatsDone = 0 ∧ c.addressDone = false ∧ c.cmdReady = false := by
  unfold pushed beatsDone addressDone cmdReady
  cases state : c.state with
  | writeCommand => exact absurd state notWrites
  | ready => exact absurd state notFinal
  | _ => exact ⟨rfl, rfl, rfl, rfl⟩

/-- The part a cycle plays in a burst. -/
inductive BurstStep (c : Controller) (i : Inputs) : MainState → AccessRegs → Prop where
  | outside (state : MainState) (access : AccessRegs) (before : ¬ c.inBurst)
      (after : state ≠ .writeCommand ∧ state ≠ .ready) : BurstStep c i state access
  | push (pushes : c.state = .writeCommandPush) :
      BurstStep c i .writeCommand ⟨.wrAW .bufLo, c.access.regStatus⟩
  | write (writes : c.state = .writeCommand) (writing : c.access.regState.writing = true)
      (unfinished : c.access.regState ≠ .done) : BurstStep c i .writeCommand (c.nextAccess i)
  | written (access : AccessRegs) (writes : c.state = .writeCommand)
      (done : c.access.regState = .done) : BurstStep c i .ready access
  | release (access : AccessRegs) (final : c.state = .ready) : BurstStep c i .readStatus access

theorem MainStep.burst {state : MainState} {access : AccessRegs} (main : MainStep c i state access) :
    BurstStep c i state access := by
  cases main with
  | rest before | poll before | begin before | request before | await r before | capture r before
  | acknowledge r before | nothing before =>
    refine .outside _ _ ?_ ⟨MainState.noConfusion, MainState.noConfusion⟩
    rintro (no | no | no) <;> rw [before] at no <;> cases no
  | complete wrNotRd before =>
    obtain ⟨-, -, notWrites, notFinal⟩ := sendState_ne wrNotRd true
    refine .outside _ _ ?_ ⟨notWrites, notFinal⟩
    rintro (no | no | no) <;> rw [before] at no <;> cases no
  | send wrNotRd pull before =>
    obtain ⟨-, notPushes, notWrites, notFinal⟩ := sendState_ne wrNotRd pull
    refine .outside _ _ ?_ ⟨MainState.noConfusion, MainState.noConfusion⟩
    rintro (no | no | no) <;> rw [before] at no
    · exact notPushes no
    · exact notWrites no
    · exact notFinal no
  | hold wrNotRd pull before =>
    obtain ⟨-, notPushes, notWrites, notFinal⟩ := sendState_ne wrNotRd pull
    obtain ⟨-, -, notWrites', notFinal'⟩ := sendState_ne wrNotRd false
    refine .outside _ _ ?_ ⟨notWrites', notFinal'⟩
    rintro (no | no | no) <;> rw [before] at no
    · exact notPushes no
    · exact notWrites no
    · exact notFinal no
  | push pushes => exact .push pushes
  | write writes writing unfinished => exact .write writes writing unfinished
  | written writes done => exact .written _ writes done
  | release final => exact .release _ final

/-- Outside of a burst nothing is written. -/
theorem Control.no_beat (control : Control c) (outside : c.state ≠ .writeCommand) :
    c.access.regState.beat = none ∧ c.access.regState.awValid = false := by
  by_cases reads : c.state = .readStatus
  · have reading := control.reading reads
    cases access : c.access.regState <;> rw [access] at reading <;>
      first | exact ⟨rfl, rfl⟩ | cases reading
  · rw [control.resting reads outside]
    exact ⟨rfl, rfl⟩

end Controller

namespace Arbiter

open Controller

variable {a : Arbiter} {i : Inputs} {finished : List Command}

/-- The history follows the commands: those in `finished` are done with, the one in the
registers is under way. -/
structure Tracked (a : Arbiter) (finished : List Command) : Prop where
  accepted : a.history.accepted ++ eventIf a.controller.fresh a.controller.current =
    finished ++ eventIf a.controller.command.cmdValid a.controller.current
  pushes : a.history.pushes =
    (finished ++ eventIf a.controller.pushed a.controller.current).map Command.item
  beats : a.history.beats = finished.flatMap Command.burst ++
    a.controller.current.burst.take a.controller.beatsDone
  addresses : a.history.addresses = finished.length + a.controller.addressDone.toNat
  offeredRd : a.controller.command.rdReady = true → ∃ data, a.history.offeredRd = some data ∧
    unpackNvmeCmd data = a.controller.command.cmd
  offeredWr : a.controller.command.wrReady = true → ∃ data, a.history.offeredWr = some data ∧
    unpackNvmeCmd data = a.controller.command.cmd

/-- The arbiter after a cycle without a reset. -/
def advance (a : Arbiter) (i : Inputs) : Arbiter := ⟨a.controller.advance i, a.record i⟩

/-- The commands that are done with after a cycle. -/
def finishedNext (a : Arbiter) (finished : List Command) : List Command :=
  finished ++ eventIf a.controller.cmdReady a.controller.current

/-- A command is handed over in the cycle after it was taken. -/
theorem Tracked.record_accepted (control : Control a.controller) (tracked : Tracked a finished)
    (admits : a.Admits i) : (a.record i).accepted =
      finished ++ eventIf a.controller.command.cmdValid a.controller.current := by
  rw [← tracked.accepted]
  unfold record
  dsimp only
  cases rd : a.controller.command.rdReady with
  | true =>
    obtain ⟨stream, wr⟩ := control.fromRd rd
    obtain ⟨data, offered, same⟩ := tracked.offeredRd rd
    obtain ⟨valid, held⟩ := admits.holdsRd data offered
    rw [valid, held, same, wr]
    simp only [Controller.fresh, Controller.current, rd, stream, Bool.true_or, Bool.and_true,
      Bool.and_false, eventIf_true, eventIf_false, List.append_nil]
  | false =>
    cases wr : a.controller.command.wrReady with
    | true =>
      obtain ⟨data, offered, same⟩ := tracked.offeredWr wr
      obtain ⟨valid, held⟩ := admits.holdsWr data offered
      rw [valid, held, same]
      simp only [Controller.fresh, Controller.current, rd, wr, control.fromWr wr, Bool.or_true,
        Bool.and_true, Bool.and_false, eventIf_true, eventIf_false, List.append_nil]
    | false =>
      simp only [Controller.fresh, rd, wr, Bool.or_false, Bool.and_false, eventIf_false,
        List.append_nil]

/-- The lists of the commands after a cycle. -/
theorem Tracked.advance_accepted (control : Control a.controller) (tracked : Tracked a finished)
    (admits : a.Admits i) :
    (a.advance i).history.accepted ++
        eventIf (a.advance i).controller.fresh (a.advance i).controller.current =
      a.finishedNext finished ++
        eventIf (a.advance i).controller.command.cmdValid (a.advance i).controller.current := by
  have recorded := tracked.record_accepted control admits
  have command := nextCommand_step control i
  unfold Arbiter.advance finishedNext Controller.fresh Controller.current Controller.advance
  dsimp only
  rw [recorded]
  generalize a.controller.nextCommand i = next at command
  cases command with
  | takeRd idle | takeWr idle =>
    have busy : a.controller.cmdReady = false := by
      rw [Controller.cmdReady, decide_eq_false_iff_not]
      intro final
      have valid := control.handling (Or.inr (Or.inr final))
      rw [idle] at valid
      cases valid
    rw [idle, busy]
    simp [take]
  | keep busy =>
    have notFinal : a.controller.cmdReady = false := decide_eq_false busy
    rw [notFinal]
    simp [quiet, Controller.current]
  | release cmdState final valid =>
    have isFinal : a.controller.cmdReady = true := decide_eq_true final
    rw [valid, isFinal]
    simp [quiet, Controller.current]

theorem no_beats {r : RegState} (silent : r.beat = none) (command : Command) (ready : Bool) :
    r.beats command ready = [] := by
  rw [RegState.beats, silent]

/-- A word that is accepted is added to the burst. -/
theorem take_beats (command : Command) (r : RegState) (ready : Bool) :
    command.burst.take r.beatsDone ++ r.beats command ready =
      command.burst.take (r.beatsDone + (r.beat.isSome && ready).toNat) := by
  cases r with
  | wrAW word | wrW word =>
    cases ready with
    | false => exact List.append_nil _
    | true => exact (command.burst_take word).symm
  | _ => exact List.append_nil _

/-- The address of a burst is accepted once. -/
theorem address_once (r : RegState) (ready : Bool) :
    r.addressDone.toNat + (r.awValid && ready).toNat =
      (r.addressDone || r.awValid && ready).toNat := by
  cases r <;> cases ready <;> rfl

/-- The queue, the bursts and their addresses after a cycle. -/
theorem Tracked.advance_bursts (control : Control a.controller) (tracked : Tracked a finished)
    (i : Inputs) :
    (a.advance i).history.pushes = (a.finishedNext finished ++
        eventIf (a.advance i).controller.pushed (a.advance i).controller.current).map Command.item ∧
      (a.advance i).history.beats = (a.finishedNext finished).flatMap Command.burst ++
        (a.advance i).controller.current.burst.take (a.advance i).controller.beatsDone ∧
      (a.advance i).history.addresses =
        (a.finishedNext finished).length + (a.advance i).controller.addressDone.toNat := by
  have main := main_step control i
  have stays : a.controller.inBurst → a.controller.state ≠ .ready →
      (a.advance i).controller.current = a.controller.current :=
    fun inside busy => current_advance control (control.handling inside) busy
  obtain ⟨state, stateEq⟩ : ∃ state, (a.advance i).controller.state = state := ⟨_, rfl⟩
  obtain ⟨access, accessEq⟩ : ∃ access, (a.advance i).controller.access = access := ⟨_, rfl⟩
  have burst : BurstStep a.controller i state access := by
    rw [← stateEq, ← accessEq]
    exact main.burst
  have pushes : (a.advance i).history.pushes =
    a.history.pushes ++ eventIf a.controller.fifoPush a.controller.fifoIn := rfl
  have addresses : (a.advance i).history.addresses = a.history.addresses +
    (a.controller.access.regState.awValid && i.awReady).toNat := rfl
  have beats : (a.advance i).history.beats = a.history.beats ++
    a.controller.access.regState.beats a.controller.current i.wReady := rfl
  rw [pushes, addresses, beats, tracked.pushes, tracked.beats, tracked.addresses, finishedNext]
  cases burst with
  | outside state access before after =>
    have before' := not_pushed (fun no => before (Or.inr (Or.inl no)))
      (fun no => before (Or.inr (Or.inr no)))
    rw [← stateEq] at after
    have after' := not_pushed after.1 after.2
    have noPush : a.controller.fifoPush = false := decide_eq_false fun no => before (Or.inl no)
    obtain ⟨noBeat, noAddress⟩ := control.no_beat fun no => before (Or.inr (Or.inl no))
    rw [before'.1, before'.2.1, before'.2.2.1, before'.2.2.2, after'.1, after'.2.1, after'.2.2.1,
      noPush, no_beats noBeat, noAddress]
    simp
  | push begins =>
    have before := not_pushed (c := a.controller) (by rw [begins]; exact MainState.noConfusion)
      (by rw [begins]; exact MainState.noConfusion)
    have after := writeCommand_pushed stateEq
    have begins' : a.controller.fifoPush = true := decide_eq_true begins
    have item : a.controller.fifoIn = a.controller.current.item := rfl
    obtain ⟨noBeat, noAddress⟩ := control.no_beat (by rw [begins]; exact MainState.noConfusion)
    rw [before.1, before.2.1, before.2.2.1, before.2.2.2, after.1, after.2.1, after.2.2.1, accessEq,
      begins', no_beats noBeat, noAddress, item,
      stays (Or.inl begins) (by rw [begins]; exact MainState.noConfusion)]
    simp [RegState.beatsDone, RegState.addressDone, BurstWord.index]
  | write writes writing unfinished =>
    have before := writeCommand_pushed writes
    have after := writeCommand_pushed stateEq
    obtain ⟨-, beatsNext, addressNext⟩ := @nextAccess_writing _ i writing unfinished
    rw [before.1, before.2.1, before.2.2.1, before.2.2.2.1, before.2.2.2.2, after.1, after.2.1,
      after.2.2.1, accessEq, beatsNext, addressNext,
      stays (Or.inr (Or.inl writes)) (by rw [writes]; exact MainState.noConfusion)]
    refine ⟨by simp, ?_, ?_⟩
    · rw [eventIf_false, List.append_nil, List.append_assoc, take_beats]
    · rw [eventIf_false, List.append_nil, Nat.add_assoc, address_once]
  | written access writes done =>
    have before := writeCommand_pushed writes
    have after := ready_pushed stateEq
    rw [before.1, before.2.1, before.2.2.1, before.2.2.2.1, before.2.2.2.2, after.1, after.2.1,
      after.2.2.1, done,
      stays (Or.inr (Or.inl writes)) (by rw [writes]; exact MainState.noConfusion)]
    simp [RegState.beatsDone, RegState.addressDone, RegState.beats, RegState.beat, RegState.awValid]
  | release access final =>
    have before := ready_pushed final
    have after := not_pushed (c := (a.advance i).controller)
      (by rw [stateEq]; exact MainState.noConfusion) (by rw [stateEq]; exact MainState.noConfusion)
    obtain ⟨noBeat, noAddress⟩ := control.no_beat (by rw [final]; exact MainState.noConfusion)
    have whole : a.controller.current.burst.take 6 = a.controller.current.burst := rfl
    rw [before.1, before.2.1, before.2.2.1, before.2.2.2.1, before.2.2.2.2, after.1, after.2.1,
      after.2.2.1, no_beats noBeat, noAddress, whole]
    simp

/-- What a master offers while its command is taken. -/
theorem advance_offered (control : Control a.controller) (i : Inputs) :
    ((a.advance i).controller.command.rdReady = true → ∃ data,
      (a.advance i).history.offeredRd = some data ∧
        unpackNvmeCmd data = (a.advance i).controller.command.cmd) ∧
    ((a.advance i).controller.command.wrReady = true → ∃ data,
      (a.advance i).history.offeredWr = some data ∧
        unpackNvmeCmd data = (a.advance i).controller.command.cmd) := by
  have command := nextCommand_step control i
  have quietly : a.controller.command.cmdValid = false →
      a.controller.command.rdReady = false ∧ a.controller.command.wrReady = false := by
    intro idle
    have notFresh : a.controller.fresh = false := by
      rw [← Bool.not_eq_true]
      intro fresh
      have valid := (control.early fresh).1
      rw [idle] at valid
      cases valid
    exact Bool.or_eq_false_iff.mp notFresh
  unfold Arbiter.advance Controller.advance record
  dsimp only
  generalize a.controller.nextCommand i = next at command
  cases command with
  | takeRd idle offered =>
    rw [(quietly idle).1, offered]
    exact ⟨fun _ => ⟨i.cmdRdData, rfl, rfl⟩, Bool.noConfusion⟩
  | takeWr idle offered =>
    rw [(quietly idle).2, offered]
    exact ⟨Bool.noConfusion, fun _ => ⟨i.cmdWrData, rfl, rfl⟩⟩
  | keep => exact ⟨Bool.noConfusion, Bool.noConfusion⟩
  | release => exact ⟨Bool.noConfusion, Bool.noConfusion⟩

theorem Tracked.advance (control : Control a.controller) (tracked : Tracked a finished)
    (admits : a.Admits i) : Tracked (a.advance i) (a.finishedNext finished) := by
  obtain ⟨pushes, beats, addresses⟩ := tracked.advance_bursts control i
  obtain ⟨offeredRd, offeredWr⟩ := advance_offered control i
  exact ⟨tracked.advance_accepted control admits, pushes, beats, addresses, offeredRd, offeredWr⟩

/-! ## The queue and the counters -/

/-- The entries of the queue. -/
def waiting (a : Arbiter) : List FifoItem := a.history.pushes.drop a.history.pulls

/-- The command in the registers is not yet in the queue. -/
def unqueued (c : Controller) (drive : Drive) : Bool :=
  c.command.cmdValid && !c.pushed && driveDecode c.command.cmd.drive drive

/-- The queue holds the commands that were pushed and not pulled, and the counters count
them. -/
structure Queued (a : Arbiter) : Prop where
  position : a.controller.fifo.fifoPos + a.history.pulls = a.history.pushes.length
  contents : ∀ k < a.controller.fifo.fifoPos,
    a.waiting[k]? = some (a.controller.fifo.fifoBuf k)
  counts : ∀ drive, a.controller.counters.driveCounters drive +
      (a.controller.command.driveInc drive).toNat =
    a.waiting.countP (fun item => item.drive = drive) + (unqueued a.controller drive).toNat
  limit : ∀ drive, a.controller.counters.driveCounters drive +
    (a.controller.command.driveInc drive).toNat ≤ nvmeCmdCounterLimit
  free : a.controller.command.cmdValid = false → ∀ drive,
    a.controller.counters.driveFree drive = true →
      a.controller.counters.driveCounters drive < nvmeCmdCounterLimit
  present : ∀ item ∈ a.history.pushes, item.drive.val < nvmeDrivesPresent

theorem Queued.length_waiting (queued : Queued a) : a.waiting.length = a.controller.fifo.fifoPos := by
  have position := queued.position
  rw [waiting, List.length_drop]
  omega

/-- Entries for two drives. -/
theorem length_eq_countP {items : List FifoItem}
    (present : ∀ item ∈ items, item.drive.val < nvmeDrivesPresent) :
    items.length = items.countP (fun item => item.drive = 0) +
      items.countP (fun item => item.drive = 1) := by
  induction items with
  | nil => rfl
  | cons item items ih =>
    rw [List.forall_mem_cons] at present
    have two : item.drive = 0 ∨ item.drive = 1 := by
      have below := present.1
      rw [nvmeDrivesPresent] at below
      rcases Nat.lt_succ_iff_lt_or_eq.mp below with zero | one
      · exact Or.inl (Fin.ext (Nat.lt_one_iff.mp zero))
      · exact Or.inr (Fin.ext one)
    rw [List.length_cons, ih present.2, List.countP_cons, List.countP_cons]
    rcases two with drive | drive <;> simp [drive] <;> omega

/-- The queue never holds more than the two counters allow. -/
theorem Queued.capacity (queued : Queued a) : a.controller.fifo.fifoPos ≤ 436 := by
  have present : ∀ item ∈ a.waiting, item.drive.val < nvmeDrivesPresent :=
    fun item member => queued.present item (List.mem_of_mem_drop member)
  have total := length_eq_countP present
  have first := queued.counts 0
  have second := queued.counts 1
  have limit := queued.limit
  have firstLimit := limit 0
  have secondLimit := limit 1
  rw [queued.length_waiting] at total
  rw [nvmeCmdCounterLimit] at firstLimit secondLimit
  omega

/-- A counter moves by the command that was taken and the one that is pulled. -/
theorem nextCounters_eq {c : Controller} {drive : Drive}
    (limit : c.counters.driveCounters drive + (c.command.driveInc drive).toNat ≤
      nvmeCmdCounterLimit)
    (dec : c.driveDec drive = true → 0 < c.counters.driveCounters drive) :
    c.nextCounters.driveCounters drive + (c.driveDec drive).toNat =
      c.counters.driveCounters drive + (c.command.driveInc drive).toNat := by
  have range : nvmeCmdCounterRange = 512 := rfl
  have bound : nvmeCmdCounterLimit = 218 := rfl
  rw [bound] at limit
  unfold nextCounters
  dsimp only
  rw [range]
  cases inc : c.command.driveInc drive <;> cases down : c.driveDec drive <;>
    simp only [inc, Bool.toNat_true, Bool.toNat_false] at limit ⊢ <;>
    simp only [Bool.not_true, Bool.not_false, Bool.and_true, Bool.and_false, Bool.false_eq_true,
      if_true, if_false, Bool.and_self]
  · have positive := dec down
    omega
  · omega

/-- A drive that is free has room for a command. -/
theorem Queued.advance_limit (control : Control a.controller) (queued : Queued a) (i : Inputs)
    (dec : ∀ drive, a.controller.driveDec drive = true →
      0 < a.controller.counters.driveCounters drive) :
    (∀ drive, (a.advance i).controller.counters.driveCounters drive +
      ((a.advance i).controller.command.driveInc drive).toNat ≤ nvmeCmdCounterLimit) ∧
    ((a.advance i).controller.command.cmdValid = false → ∀ drive,
      (a.advance i).controller.counters.driveFree drive = true →
        (a.advance i).controller.counters.driveCounters drive < nvmeCmdCounterLimit) := by
  have moves : ∀ drive, (a.advance i).controller.counters.driveCounters drive ≤
      a.controller.counters.driveCounters drive + (a.controller.command.driveInc drive).toNat := by
    intro drive
    have eq := nextCounters_eq (queued.limit drive) (dec drive)
    exact Nat.le_of_add_right_le eq.le
  have below : ∀ drive, (a.advance i).controller.counters.driveFree drive = true →
      a.controller.counters.driveCounters drive < nvmeCmdCounterLimit :=
    fun drive free => of_decide_eq_true free
  have room : a.controller.command.cmdValid = false → ∀ {taken : Drive},
      a.controller.counters.driveFree taken = true → ∀ drive,
        (a.advance i).controller.counters.driveCounters drive + (driveDecode taken drive).toNat ≤
          nvmeCmdCounterLimit := by
    intro idle taken free drive
    have moved := moves drive
    have limit := queued.limit drive
    have left := queued.free idle taken free
    rw [control.inc_eq_false (Or.inl idle) drive, Bool.toNat_false, Nat.add_zero] at moved limit
    unfold driveDecode
    by_cases same : drive = taken
    · rw [decide_eq_true same, Bool.toNat_true]
      rw [← same] at left
      omega
    · rw [decide_eq_false same, Bool.toNat_false]
      omega
  have command := nextCommand_step control i
  change CommandStep a.controller i (a.advance i).controller.command at command
  generalize (a.advance i).controller.command = next at command
  cases command with
  | takeRd idle offered present free | takeWr idle offered present free =>
    exact ⟨room idle free, Bool.noConfusion⟩
  | keep busy =>
    refine ⟨fun drive => (moves drive).trans (queued.limit drive), ?_⟩
    intro idle drive free
    have moved := moves drive
    rw [control.inc_eq_false (Or.inl idle) drive] at moved
    exact Nat.lt_of_le_of_lt moved (below drive free)
  | release cmdState final valid =>
    refine ⟨fun drive => (moves drive).trans (queued.limit drive), ?_⟩
    intro _ drive free
    have moved := moves drive
    rw [control.inc_eq_false (Or.inr final) drive] at moved
    exact Nat.lt_of_le_of_lt moved (below drive free)

/-- What happens to the queue in a cycle. -/
inductive QueueStep (c : Controller) : FifoRegs → Prop where
  | keep (noPush : c.fifoPush = false) (noPull : c.fifoPull = false) : QueueStep c c.fifo
  | push (push : c.fifoPush = true) (noPull : c.fifoPull = false) :
      QueueStep c ⟨Function.update c.fifo.fifoBuf c.fifo.fifoPos c.fifoIn,
        (c.fifo.fifoPos + 1) % fifoSize⟩
  | pull (noPush : c.fifoPush = false) (pull : c.fifoPull = true) :
      QueueStep c ⟨shiftRight c.fifo.fifoBuf, (c.fifo.fifoPos + fifoSize - 1) % fifoSize⟩

theorem not_push_and_pull (c : Controller) : ¬ (c.fifoPush = true ∧ c.fifoPull = true) := by
  rintro ⟨push, pull⟩
  have push := of_decide_eq_true push
  rcases of_decide_eq_true pull with pull | pull <;> rw [push] at pull <;> cases pull

theorem queue_step (c : Controller) : QueueStep c c.nextFifo := by
  have apart := not_push_and_pull c
  unfold nextFifo
  cases push : c.fifoPush <;> cases pull : c.fifoPull
  · exact .keep push pull
  · exact .pull push pull
  · exact .push push pull
  · exact absurd ⟨push, pull⟩ apart

/-- The queue after a cycle. -/
theorem Queued.advance_queue (queued : Queued a) (i : Inputs)
    (nonempty : a.controller.fifoPull = true → 0 < a.controller.fifo.fifoPos) :
    (a.advance i).controller.fifo.fifoPos + (a.advance i).history.pulls =
        (a.advance i).history.pushes.length ∧
      (∀ k < (a.advance i).controller.fifo.fifoPos,
        (a.advance i).waiting[k]? = some ((a.advance i).controller.fifo.fifoBuf k)) := by
  have position := queued.position
  have capacity := queued.capacity
  have length : (a.history.pushes.drop a.history.pulls).length = a.controller.fifo.fifoPos :=
    queued.length_waiting
  have size : fifoSize = 512 := rfl
  have pushes : (a.advance i).history.pushes =
    a.history.pushes ++ eventIf a.controller.fifoPush a.controller.fifoIn := rfl
  have pulls : (a.advance i).history.pulls = a.history.pulls + a.controller.fifoPull.toNat := rfl
  have queue := queue_step a.controller
  change QueueStep a.controller (a.advance i).controller.fifo at queue
  unfold waiting
  rw [pushes, pulls]
  generalize (a.advance i).controller.fifo = fifo at queue
  cases queue with
  | keep noPush noPull =>
    rw [noPush, noPull, eventIf_false, List.append_nil]
    exact ⟨position, queued.contents⟩
  | push push noPull =>
    have next : (a.controller.fifo.fifoPos + 1) % fifoSize = a.controller.fifo.fifoPos + 1 := by
      rw [size]
      omega
    rw [push, noPull, eventIf_true, Bool.toNat_false, next]
    simp only [Nat.add_zero]
    rw [List.drop_append_of_le_length (by omega)]
    refine ⟨by rw [List.length_append, List.length_singleton]; omega, ?_⟩
    intro k below
    rcases Nat.lt_succ_iff_lt_or_eq.mp below with earlier | last
    · rw [List.getElem?_append_left (by rw [length]; exact earlier),
        Function.update_of_ne earlier.ne]
      exact queued.contents k earlier
    · rw [last, Function.update_self, List.getElem?_append_right (by rw [length]), length,
        Nat.sub_self]
      rfl
  | pull noPush pull =>
    have some := nonempty pull
    have next : (a.controller.fifo.fifoPos + fifoSize - 1) % fifoSize =
        a.controller.fifo.fifoPos - 1 := by
      rw [size]
      omega
    rw [noPush, pull, eventIf_false, List.append_nil, Bool.toNat_true, next]
    dsimp only
    refine ⟨by omega, ?_⟩
    intro k below
    have kept := queued.contents (k + 1) (by omega)
    unfold waiting at kept
    rw [List.getElem?_drop] at kept
    unfold shiftRight
    rw [List.getElem?_drop, if_pos (by rw [size]; omega), Nat.add_right_comm,
      Nat.add_assoc, kept]

/-- The command in the registers goes to the queue in this cycle. -/
def pushes (c : Controller) (drive : Drive) : Bool :=
  c.fifoPush && driveDecode c.command.cmd.drive drive

/-- The entries of the queue for a drive after a cycle. -/
theorem Queued.advance_countP (queued : Queued a) (i : Inputs)
    (nonempty : a.controller.fifoPull = true → 0 < a.controller.fifo.fifoPos) (drive : Drive) :
    (a.advance i).waiting.countP (fun item => item.drive = drive) +
        (a.controller.driveDec drive).toNat =
      a.waiting.countP (fun item => item.drive = drive) + (pushes a.controller drive).toNat := by
  have position := queued.position
  have history : (a.advance i).waiting = (a.history.pushes ++
    eventIf a.controller.fifoPush a.controller.fifoIn).drop
      (a.history.pulls + a.controller.fifoPull.toNat) := rfl
  rw [history]
  have queue := queue_step a.controller
  generalize a.controller.nextFifo = fifo at queue
  unfold pushes driveDec
  cases queue with
  | keep noPush noPull =>
    rw [noPush, noPull, eventIf_false, List.append_nil]
    rfl
  | push push noPull =>
    rw [push, noPull, eventIf_true, Bool.toNat_false, Nat.add_zero,
      List.drop_append_of_le_length (by omega), List.countP_append, List.countP_singleton]
    simp only [waiting, fifoIn, driveDecode, Bool.false_and, Bool.true_and, Bool.toNat_false,
      Nat.add_zero, eq_comm]
    by_cases same : drive = a.controller.command.cmd.drive <;> simp [same]
  | pull noPush pull =>
    have some := nonempty pull
    have head := queued.contents 0 some
    have split : a.waiting = a.controller.fifoOut :: a.history.pushes.drop (a.history.pulls + 1) := by
      unfold waiting at head ⊢
      rw [List.getElem?_drop, Nat.add_zero] at head
      obtain ⟨below, same⟩ := List.getElem?_eq_some_iff.mp head
      rw [List.drop_eq_getElem_cons below, same]
      rfl
    rw [noPush, pull, eventIf_false, List.append_nil, Bool.toNat_true, split, List.countP_cons]
    simp only [driveDecode, Bool.false_and, Bool.true_and, Bool.toNat_false, Nat.add_zero, eq_comm]
    by_cases same : drive = a.controller.fifoOut.drive <;> simp [same]

/-- A command is in the queue from the cycle after its push on. -/
theorem pushed_advance (control : Control a.controller) (busy : a.controller.state ≠ .ready)
    (i : Inputs) :
    (a.advance i).controller.pushed = (a.controller.pushed || a.controller.fifoPush) := by
  have burst := (main_step control i).burst
  change BurstStep a.controller i (a.advance i).controller.state _ at burst
  unfold Controller.pushed fifoPush
  generalize (a.advance i).controller.state = state at burst
  generalize a.controller.nextAccess i = access at burst
  cases burst with
  | outside state access before after =>
    have notPushed := not_pushed (fun no => before (Or.inr (Or.inl no))) busy
    have noPush : a.controller.fifoPush = false := decide_eq_false fun no => before (Or.inl no)
    unfold Controller.pushed fifoPush at *
    rw [notPushed.1, noPush, Bool.or_self, decide_eq_false_iff_not, not_or]
    exact after
  | push begins => simp [begins]
  | write writes => simp [writes]
  | written access writes => simp [writes]
  | release access final => exact absurd final busy

/-- The command in the registers after a cycle. -/
theorem advance_unqueued (control : Control a.controller) (i : Inputs) (drive : Drive) :
    (unqueued (a.advance i).controller drive).toNat + (pushes a.controller drive).toNat =
      (unqueued a.controller drive).toNat +
        ((a.advance i).controller.command.driveInc drive).toNat := by
  have command := nextCommand_step control i
  change CommandStep a.controller i (a.advance i).controller.command at command
  have noPush : a.controller.command.cmdValid = false → a.controller.fifoPush = false := by
    intro idle
    rw [fifoPush, decide_eq_false_iff_not]
    intro begins
    have valid := control.handling (Or.inl begins)
    rw [idle] at valid
    cases valid
  have noBurst : a.controller.command.cmdValid = false →
      (a.advance i).controller.pushed = false := by
    intro idle
    rw [Controller.pushed, decide_eq_false_iff_not]
    intro later
    have valid := ((main_step control i).inBurst control (Or.inr later)).1
    rw [idle] at valid
    cases valid
  have stays := pushed_advance (a := a) control
  unfold unqueued pushes
  generalize (a.advance i).controller.command = next at command
  cases command with
  | takeRd idle | takeWr idle =>
    rw [idle, noPush idle, noBurst idle]
    simp [take]
  | keep busy =>
    rw [stays busy i]
    cases valid : a.controller.command.cmdValid with
    | false =>
      rw [noPush valid]
      simp [quiet, valid]
    | true =>
      have apart : ¬ (a.controller.pushed = true ∧ a.controller.fifoPush = true) := by
        rintro ⟨pushed, begins⟩
        have begins := of_decide_eq_true begins
        rcases of_decide_eq_true pushed with no | no <;> rw [begins] at no <;> cases no
      cases pushed : a.controller.pushed <;> cases push : a.controller.fifoPush <;>
        simp [quiet, valid]
      exact absurd ⟨pushed, push⟩ apart
  | release cmdState final valid =>
    have before := ready_pushed final
    rw [before.1, before.2.2.2.2]
    simp [quiet]

/-- A command that was just taken is not yet in the queue. -/
theorem inc_le_unqueued (control : Control a.controller) (drive : Drive) :
    (a.controller.command.driveInc drive).toNat ≤ (unqueued a.controller drive).toNat := by
  rw [control.inc drive]
  cases fresh : a.controller.fresh with
  | false => exact Nat.zero_le _
  | true =>
    obtain ⟨valid, outside⟩ := control.early fresh
    have notPushed := not_pushed (fun no => outside (Or.inr (Or.inl no)))
      (fun no => outside (Or.inr (Or.inr no)))
    unfold unqueued
    rw [valid, notPushed.1]
    exact Nat.le_refl _

/-- No counter is decremented below zero. -/
theorem Queued.counter_pos (control : Control a.controller) (queued : Queued a)
    (nonempty : a.controller.fifoPull = true → 0 < a.controller.fifo.fifoPos) {drive : Drive}
    (dec : a.controller.driveDec drive = true) :
    0 < a.controller.counters.driveCounters drive := by
  unfold driveDec driveDecode at dec
  rw [Bool.and_eq_true, decide_eq_true_eq] at dec
  obtain ⟨pull, same⟩ := dec
  have head := queued.contents 0 (nonempty pull)
  have waits : 0 < a.waiting.countP (fun item => item.drive = drive) := by
    rw [List.countP_pos_iff]
    refine ⟨_, List.mem_of_getElem? head, ?_⟩
    rw [decide_eq_true_eq, same]
    rfl
  have counts := queued.counts drive
  have taken := inc_le_unqueued control drive
  omega

theorem Queued.advance (control : Control a.controller) (queued : Queued a) (i : Inputs)
    (nonempty : a.controller.fifoPull = true → 0 < a.controller.fifo.fifoPos) :
    Queued (a.advance i) := by
  have dec : ∀ drive, a.controller.driveDec drive = true →
      0 < a.controller.counters.driveCounters drive :=
    fun drive down => queued.counter_pos control nonempty down
  obtain ⟨position, contents⟩ := queued.advance_queue i nonempty
  obtain ⟨limit, free⟩ := queued.advance_limit control i dec
  refine ⟨position, contents, ?_, limit, free, ?_⟩
  · intro drive
    have moved : (a.advance i).controller.counters.driveCounters drive +
        (a.controller.driveDec drive).toNat = a.controller.counters.driveCounters drive +
          (a.controller.command.driveInc drive).toNat :=
      nextCounters_eq (queued.limit drive) (dec drive)
    have counts := queued.counts drive
    have waits := queued.advance_countP i nonempty drive
    have command := advance_unqueued control i drive
    omega
  · intro item member
    rcases List.mem_append.mp member with earlier | new
    · exact queued.present item earlier
    · cases push : a.controller.fifoPush with
      | false =>
        rw [push] at new
        cases new
      | true =>
        rw [push, eventIf_true, List.mem_singleton] at new
        rw [new]
        exact control.present (control.handling (Or.inl (of_decide_eq_true push)))

end Arbiter

end MetalFs.Fpga
