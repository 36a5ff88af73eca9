import MetalFs.Fpga.Membus
import MetalFs.Lib.Runs

/-!
# The NVMe arbiter

`NvmeController.vhd`: five processes with a common clock.  The command process takes
commands from two streams, the main process writes them to the registers of the NVMe core
and polls it for completions, a counter for each drive limits the commands under way, and
a queue remembers which stream and which drive the commands belong to.

Every process reads the registers of the others as they were before the clock edge.
-/

namespace MetalFs.Fpga

/-! ## Definitions of `nvme_def.vhd` -/

/-- `c_NvmeDrivesPresent`. -/
def nvmeDrivesPresent : Nat := 2

/-- `c_NvmeCmdCounterLimit`. -/
def nvmeCmdCounterLimit : Nat := 218

/-- The values of a `t_NvmeCmdCounter`. -/
def nvmeCmdCounterRange : Nat := 2 ^ 9

/-- `t_NvmeDriveAddr`, of three bits. -/
abbrev Drive := Fin 8

/-- `t_NvmeCmd`. -/
structure NvmeCmd where
  bufferAddr : Nat
  drive : Drive
  blockAddr : Nat
  blockCnt : Nat
deriving DecidableEq, Repr

/-- `f_unpackNvmeCmd`. -/
def unpackNvmeCmd (payload : Nat) : NvmeCmd where
  bufferAddr := bits payload 63 0
  blockAddr := bits payload 127 64
  blockCnt := bits payload 159 128
  drive := Fin.ofNat 8 (bits payload 162 160)

/-- `f_nvmeControlWord`. -/
def nvmeControlWord (writeNotRead : Bool) (driveAddr : Drive) : Nat :=
  writeNotRead.toNat + 2 ^ 4 + driveAddr.val * 2 ^ 5

/-- `f_driveDecode`. -/
def driveDecode (pos drive : Drive) : Bool := drive = pos

/-! ## Signals -/

/-- `t_State`. -/
inductive MainState where
  | idle
  | readStatus
  | sendResRdPull
  | sendResRd
  | sendResWrPull
  | sendResWr
  | writeCommandPush
  | writeCommand
  | ready
deriving DecidableEq, Repr

/-- `t_CmdState`. -/
inductive CmdState where
  | idleRd
  | idleWr
  | ackRd
  | ackWr
deriving DecidableEq, Repr

/-- The six words of a register burst. -/
inductive BurstWord where
  | bufLo
  | bufHi
  | blkLo
  | blkHi
  | cnt
  | cmd
deriving DecidableEq, Repr

/-- `t_RegState`: `wrAW` are the states of the words before the address is accepted, `wrW`
those after it. -/
inductive RegState where
  | idle
  | rdStatusAR
  | rdStatusA
  | rdStatusR
  | wrAW (word : BurstWord)
  | wrW (word : BurstWord)
  | wrDoneA
  | done
deriving DecidableEq, Repr

/-- An entry of the queue. -/
structure FifoItem where
  drive : Drive
  wrNotRd : Bool
deriving DecidableEq, Repr

/-- `c_FIFOSize`. -/
def fifoSize : Nat := 2 ^ 9

/-- The registers of the command process. -/
structure CmdRegs where
  cmdState : CmdState
  rdReady : Bool
  wrReady : Bool
  driveInc : Drive → Bool
  cmd : NvmeCmd
  cmdWrNotRd : Bool
  cmdValid : Bool

/-- The registers of the counters. -/
structure CounterRegs where
  driveCounters : Drive → Nat
  driveFree : Drive → Bool
  driveCmdPending : Bool

/-- The registers of the queue. -/
structure FifoRegs where
  fifoBuf : Nat → FifoItem
  fifoPos : Nat

/-- The registers of the register access. -/
structure AccessRegs where
  regState : RegState
  regStatus : Nat

/-- The registers of the controller. -/
structure Controller where
  state : MainState
  command : CmdRegs
  counters : CounterRegs
  fifo : FifoRegs
  access : AccessRegs

/-- The inputs in a cycle. -/
structure Inputs where
  reset : Bool
  cmdRdValid : Bool
  cmdRdData : Nat
  cmdWrValid : Bool
  cmdWrData : Nat
  rspRdReady : Bool
  rspWrReady : Bool
  arReady : Bool
  rValid : Bool
  rData : Nat
  awReady : Bool
  wReady : Bool
deriving DecidableEq, Repr

/-- Bit `k` of a vector. -/
def bit (vector k : Nat) : Bool := vector.testBit k

namespace Controller

/-! ## Signals that follow the state -/

def regDoRdStatus (c : Controller) : Bool := c.state = .readStatus

def regDoWrCommand (c : Controller) : Bool := c.state = .writeCommandPush ∨ c.state = .writeCommand

def cmdReady (c : Controller) : Bool := c.state = .ready

def fifoIn (c : Controller) : FifoItem := ⟨c.command.cmd.drive, c.command.cmdWrNotRd⟩

def fifoPush (c : Controller) : Bool := c.state = .writeCommandPush

def fifoOut (c : Controller) : FifoItem := c.fifo.fifoBuf 0

def fifoPull (c : Controller) : Bool := c.state = .sendResRdPull ∨ c.state = .sendResWrPull

def driveDec (c : Controller) (drive : Drive) : Bool :=
  c.fifoPull && driveDecode c.fifoOut.drive drive

def rspRdValid (c : Controller) : Bool := c.state = .sendResRdPull ∨ c.state = .sendResRd

def rspWrValid (c : Controller) : Bool := c.state = .sendResWrPull ∨ c.state = .sendResWr

/-- `p_rspRd_TDATA` and `p_rspWr_TDATA`. -/
def rspData (c : Controller) : Nat := (bit c.access.regStatus 1).toNat

def regDone (c : Controller) : Bool := c.access.regState = .done

def rReady (c : Controller) : Bool :=
  c.access.regState = .rdStatusAR ∨ c.access.regState = .rdStatusR

end Controller

/-- `p_nvme_AWVALID`. -/
def RegState.awValid : RegState → Bool
  | wrAW _ | wrDoneA => true
  | _ => false

/-- The word on `p_nvme_WDATA` while `p_nvme_WVALID` is set. -/
def RegState.beat : RegState → Option BurstWord
  | wrAW word | wrW word => some word
  | _ => none

/-- `p_nvme_WDATA` for a word. -/
def BurstWord.data (command : NvmeCmd) (wrNotRd : Bool) : BurstWord → Nat
  | bufLo => bits command.bufferAddr 31 0
  | bufHi => bits command.bufferAddr 63 32
  | blkLo => bits command.blockAddr 31 0
  | blkHi => bits command.blockAddr 63 32
  | cnt => bits command.blockCnt 31 0
  | cmd => nvmeControlWord wrNotRd command.drive

/-- The word that follows in the burst. -/
def BurstWord.next : BurstWord → Option BurstWord
  | bufLo => some bufHi
  | bufHi => some blkLo
  | blkLo => some blkHi
  | blkHi => some cnt
  | cnt => some cmd
  | cmd => none

/-! ## The processes -/

namespace Controller

variable (c : Controller) (i : Inputs)

/-- The main state machine. -/
def nextState : MainState :=
  match c.state with
  | .idle =>
    if c.command.cmdValid then .writeCommandPush
    else if c.counters.driveCmdPending then .readStatus else .idle
  | .readStatus =>
    if c.regDone then
      if bit c.access.regStatus 0 && !c.fifoOut.wrNotRd then .sendResRdPull
      else if bit c.access.regStatus 0 && c.fifoOut.wrNotRd then .sendResWrPull
      else .idle
    else .readStatus
  | .sendResRdPull => if i.rspRdReady then .readStatus else .sendResRd
  | .sendResRd => if i.rspRdReady then .readStatus else .sendResRd
  | .sendResWrPull => if i.rspWrReady then .readStatus else .sendResWr
  | .sendResWr => if i.rspWrReady then .readStatus else .sendResWr
  | .writeCommandPush => if c.regDone then .ready else .writeCommand
  | .writeCommand => if c.regDone then .ready else .writeCommand
  | .ready => .readStatus

/-- The condition under which a command is taken from a stream. -/
def takes (valid : Bool) (cmd : NvmeCmd) : Bool :=
  valid && decide (cmd.drive.val < nvmeDrivesPresent) && c.counters.driveFree cmd.drive

/-- A command is taken. -/
def take (wrNotRd : Bool) (cmd : NvmeCmd) : CmdRegs where
  cmdState := if wrNotRd then .ackWr else .ackRd
  rdReady := !wrNotRd
  wrReady := wrNotRd
  driveInc := driveDecode cmd.drive
  cmd := cmd
  cmdWrNotRd := wrNotRd
  cmdValid := true

/-- No command is taken. -/
def quiet : CmdRegs :=
  { c.command with rdReady := false, wrReady := false, driveInc := fun _ => false }

/-- The command stream state machine. -/
def nextCommand : CmdRegs :=
  let cmdRd := unpackNvmeCmd i.cmdRdData
  let cmdWr := unpackNvmeCmd i.cmdWrData
  match c.command.cmdState with
  | .idleRd =>
    if c.takes i.cmdRdValid cmdRd then take false cmdRd
    else if c.takes i.cmdWrValid cmdWr then take true cmdWr
    else c.quiet
  | .idleWr =>
    if c.takes i.cmdWrValid cmdWr then take true cmdWr
    else if c.takes i.cmdRdValid cmdRd then take false cmdRd
    else c.quiet
  | .ackRd =>
    if c.cmdReady then { c.quiet with cmdValid := false, cmdState := .idleWr } else c.quiet
  | .ackWr =>
    if c.cmdReady then { c.quiet with cmdValid := false, cmdState := .idleRd } else c.quiet

/-- The drive command counters. -/
def nextCounters : CounterRegs where
  driveCounters := fun drive =>
    if c.command.driveInc drive && !c.driveDec drive then
      (c.counters.driveCounters drive + 1) % nvmeCmdCounterRange
    else if !c.command.driveInc drive && c.driveDec drive then
      (c.counters.driveCounters drive + nvmeCmdCounterRange - 1) % nvmeCmdCounterRange
    else c.counters.driveCounters drive
  driveFree := fun drive => c.counters.driveCounters drive < nvmeCmdCounterLimit
  driveCmdPending := ∃ drive, 0 < c.counters.driveCounters drive

/-- The queue moves up by one entry. -/
def shiftRight (fifoBuf : Nat → FifoItem) (k : Nat) : FifoItem :=
  if k ≤ fifoSize - 2 then fifoBuf (k + 1) else fifoBuf k

/-- The queue of stream and drive. -/
def nextFifo : FifoRegs :=
  if c.fifoPush && c.fifoPull then
    { c.fifo with fifoBuf := Function.update (shiftRight c.fifo.fifoBuf) c.fifo.fifoPos c.fifoIn }
  else if !c.fifoPush && c.fifoPull then
    { fifoBuf := shiftRight c.fifo.fifoBuf, fifoPos := (c.fifo.fifoPos + fifoSize - 1) % fifoSize }
  else if c.fifoPush && !c.fifoPull then
    { fifoBuf := Function.update c.fifo.fifoBuf c.fifo.fifoPos c.fifoIn,
      fifoPos := (c.fifo.fifoPos + 1) % fifoSize }
  else c.fifo

/-- The state behind a word, whose address is accepted or not. -/
def afterBeat (word : BurstWord) (address : Bool) : RegState :=
  match word.next with
  | some next => if address then .wrW next else .wrAW next
  | none => if address then .done else .wrDoneA

/-- The register access. -/
def nextAccess : AccessRegs :=
  match c.access.regState with
  | .idle =>
    if c.regDoRdStatus then { c.access with regState := .rdStatusAR }
    else if c.regDoWrCommand then { c.access with regState := .wrAW .bufLo }
    else c.access
  | .rdStatusAR =>
    if i.arReady && i.rValid then ⟨.done, i.rData⟩
    else if i.arReady && !i.rValid then { c.access with regState := .rdStatusR }
    else if !i.arReady && i.rValid then ⟨.rdStatusA, i.rData⟩
    else c.access
  | .rdStatusA => if i.arReady then { c.access with regState := .done } else c.access
  | .rdStatusR => if i.rValid then ⟨.done, i.rData⟩ else c.access
  | .wrAW word =>
    if i.awReady && i.wReady then { c.access with regState := afterBeat word true }
    else if i.awReady && !i.wReady then { c.access with regState := .wrW word }
    else if !i.awReady && i.wReady then { c.access with regState := afterBeat word false }
    else c.access
  | .wrW word => if i.wReady then { c.access with regState := afterBeat word true } else c.access
  | .wrDoneA => if i.awReady then { c.access with regState := .done } else c.access
  | .done => { c.access with regState := .idle }

/-- The registers after a reset; `s_driveFree` is not reset. -/
def afterReset (driveFree : Drive → Bool) : Controller where
  state := .idle
  command :=
    { cmdState := .idleRd, rdReady := false, wrReady := false, driveInc := fun _ => false,
      cmd := ⟨0, 0, 0, 0⟩, cmdWrNotRd := false, cmdValid := false }
  counters := { driveCounters := fun _ => 0, driveFree := driveFree, driveCmdPending := false }
  fifo := { fifoBuf := fun _ => ⟨0, false⟩, fifoPos := 0 }
  access := { regState := .idle, regStatus := 0 }

/-- A clock edge. -/
def clock : Controller :=
  if i.reset then afterReset c.counters.driveFree
  else
    { state := c.nextState i
      command := c.nextCommand i
      counters := c.nextCounters
      fifo := c.nextFifo
      access := c.nextAccess i }

end Controller

/-! ## What happens at the ports -/

/-- A command with the stream it was taken from. -/
structure Command where
  wrNotRd : Bool
  cmd : NvmeCmd
deriving DecidableEq, Repr

/-- A word of a register burst, with `p_nvme_WLAST`. -/
structure Beat where
  data : Nat
  last : Bool
deriving DecidableEq, Repr

/-- A response, with the stream it is sent on. -/
structure Response where
  wrNotRd : Bool
  data : Nat
deriving DecidableEq, Repr

/-- The handshakes since the last reset. -/
structure History where
  /-- The commands handed over on the streams. -/
  accepted : List Command
  pushes : List FifoItem
  pulls : Nat
  /-- The addresses of bursts that were accepted. -/
  addresses : Nat
  beats : List Beat
  /-- The words read from the status register that report a completion. -/
  completions : List Nat
  responses : List Response
  /-- What a master has offered and has to hold. -/
  offeredRd : Option Nat
  offeredWr : Option Nat
deriving DecidableEq, Repr

/-- Nothing has happened. -/
def History.empty : History := ⟨[], [], 0, 0, [], [], [], none, none⟩

/-- The bursts that were written completely. -/
def History.burstsWritten (h : History) : Nat := min h.addresses (h.beats.countP Beat.last)

/-- A list of one event, if it happens. -/
def eventIf {α : Type} (happens : Bool) (event : α) : List α := if happens then [event] else []

/-- A word of the burst for a command. -/
def Command.beat (command : Command) (word : BurstWord) : Beat :=
  ⟨word.data command.cmd command.wrNotRd, word = .cmd⟩

/-- The words written in a cycle. -/
def RegState.beats (r : RegState) (command : Command) (wReady : Bool) : List Beat :=
  match r.beat with
  | some word => eventIf wReady (command.beat word)
  | none => []

/-- The controller with the handshakes it has seen. -/
structure Arbiter where
  controller : Controller
  history : History

namespace Arbiter

variable (a : Arbiter) (i : Inputs)

/-- The core reports a completion. -/
def reports : Bool := a.controller.rReady && i.rValid && bit i.rData 0

/-- The handshakes of a cycle. -/
def record : History :=
  let c := a.controller
  let h := a.history
  { accepted := h.accepted ++
      eventIf (i.cmdRdValid && c.command.rdReady) ⟨false, unpackNvmeCmd i.cmdRdData⟩ ++
      eventIf (i.cmdWrValid && c.command.wrReady) ⟨true, unpackNvmeCmd i.cmdWrData⟩
    pushes := h.pushes ++ eventIf c.fifoPush c.fifoIn
    pulls := h.pulls + c.fifoPull.toNat
    addresses := h.addresses + (c.access.regState.awValid && i.awReady).toNat
    beats := h.beats ++ c.access.regState.beats ⟨c.command.cmdWrNotRd, c.command.cmd⟩ i.wReady
    completions := h.completions ++ eventIf (a.reports i) i.rData
    responses := h.responses ++ eventIf (c.rspRdValid && i.rspRdReady) ⟨false, c.rspData⟩ ++
      eventIf (c.rspWrValid && i.rspWrReady) ⟨true, c.rspData⟩
    offeredRd := if i.cmdRdValid && !c.command.rdReady then some i.cmdRdData else none
    offeredWr := if i.cmdWrValid && !c.command.wrReady then some i.cmdWrData else none }

/-- Masters hold what they offer, and the core reports a completion at most once for each
burst that was written. -/
structure Admits : Prop where
  holdsRd : ∀ data ∈ a.history.offeredRd, i.cmdRdValid = true ∧ i.cmdRdData = data
  holdsWr : ∀ data ∈ a.history.offeredWr, i.cmdWrValid = true ∧ i.cmdWrData = data
  completes : a.reports i = true → a.history.completions.length < a.history.burstsWritten

instance : Decidable (a.Admits i) :=
  decidable_of_iff
    ((∀ data ∈ a.history.offeredRd, i.cmdRdValid = true ∧ i.cmdRdData = data) ∧
      (∀ data ∈ a.history.offeredWr, i.cmdWrValid = true ∧ i.cmdWrData = data) ∧
      (a.reports i = true → a.history.completions.length < a.history.burstsWritten))
    ⟨fun h => ⟨h.1, h.2.1, h.2.2⟩, fun h => ⟨h.holdsRd, h.holdsWr, h.completes⟩⟩

/-- A clock edge with inputs that are admitted. -/
def step : Option Arbiter :=
  if a.Admits i then
    some ⟨a.controller.clock i, if i.reset then .empty else a.record i⟩
  else none

/-- After a reset. -/
def start (driveFree : Drive → Bool) : Arbiter := ⟨.afterReset driveFree, .empty⟩

end Arbiter

end MetalFs.Fpga
