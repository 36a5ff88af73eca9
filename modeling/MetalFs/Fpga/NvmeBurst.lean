import MetalFs.Fpga.NvmeArbiter

/-!
# The register burst

The address and the data channel of a register burst are accepted independently of each other, in
any of the cycles from `WrBufLo_AW` to `Done`.  `Progress` says in terms of the state which
handshakes of the burst have happened; it holds after every sequence of ready signals, so that at
`Done` all of them have.
-/

namespace MetalFs.Fpga

/-- What is offered on the address channel: `p_nvme_AWADDR` and `p_nvme_AWLEN`. -/
structure BurstAddress where
  addr : Nat
  len : Nat
deriving DecidableEq, Repr

/-- The six registers from address `0` on. -/
def registerBurst : BurstAddress := ⟨0x00000000, 0x05⟩

namespace Controller

/-- The address channel, while `p_nvme_AWVALID` is set. -/
def awOffer (c : Controller) : Option BurstAddress :=
  if c.access.regState.awValid then some registerBurst else none

/-- The data channel with `p_nvme_WLAST`, while `p_nvme_WVALID` is set. -/
def wOffer (c : Controller) : Option Beat := c.access.regState.beat.map c.current.beat

/-- The controller after some cycles. -/
def after (c : Controller) (inputs : List Inputs) : Controller := inputs.foldl clock c

/-- The cycles with what is in the registers and at the inputs. -/
def cycles : Controller → List Inputs → List (Controller × Inputs)
  | _, [] => []
  | c, i :: inputs => (c, i) :: cycles (c.clock i) inputs

/-- The addresses that are accepted. -/
def addressHandshakes (c : Controller) (inputs : List Inputs) : List BurstAddress :=
  (c.cycles inputs).flatMap fun cycle =>
    if cycle.2.awReady then cycle.1.awOffer.toList else []

/-- The words that are accepted. -/
def dataHandshakes (c : Controller) (inputs : List Inputs) : List Beat :=
  (c.cycles inputs).flatMap fun cycle =>
    if cycle.2.wReady then cycle.1.wOffer.toList else []

/-- The controller can get into the state. -/
def Reachable (c : Controller) : Prop :=
  ∃ driveFree past, c = (afterReset driveFree).after past

variable {c : Controller} {i : Inputs} {inputs : List Inputs}

theorem after_append (c : Controller) (inputs : List Inputs) (i : Inputs) :
    c.after (inputs ++ [i]) = (c.after inputs).clock i := by
  simp only [after, List.foldl_append, List.foldl_cons, List.foldl_nil]

theorem cycles_append (c : Controller) (inputs : List Inputs) (i : Inputs) :
    c.cycles (inputs ++ [i]) = c.cycles inputs ++ [(c.after inputs, i)] := by
  induction inputs generalizing c with
  | nil => rfl
  | cons j inputs ih =>
    rw [List.cons_append, cycles, cycles, ih]
    rfl

theorem clock_eq_advance (running : i.reset = false) : c.clock i = c.advance i := by
  rw [clock, running]
  rfl

theorem Control.clock (control : Control c) (i : Inputs) : Control (c.clock i) := by
  cases reset : i.reset with
  | true =>
    rw [Controller.clock, reset]
    exact control_afterReset _
  | false =>
    rw [clock_eq_advance reset]
    exact control.advance i

theorem Reachable.control (reachable : Reachable c) : Control c := by
  rcases reachable with ⟨driveFree, past, rfl⟩
  induction past using List.reverseRecOn with
  | nil => exact control_afterReset driveFree
  | append_singleton past i ih =>
    rw [after_append]
    exact ih.clock i

/-! ## The handshakes of a burst -/

/-- The handshakes that have happened since the burst of the command in the registers of `c` has
begun, in terms of the state it has come to. -/
structure Progress (c c' : Controller) (addresses : List BurstAddress) (beats : List Beat) :
    Prop where
  control : Control c'
  writes : c'.state = .writeCommand
  latched : c'.current = c.current
  addresses : addresses = if c'.access.regState.addressDone then [registerBurst] else []
  beats : beats = c.current.burst.take c'.access.regState.beatsDone

/-- Only the main state `WriteCommand` writes. -/
theorem Control.writes (control : Control c) (writing : c.access.regState.writing = true)
    (unfinished : c.access.regState ≠ .done) : c.state = .writeCommand := by
  by_contra other
  by_cases reads : c.state = .readStatus
  · have reading := control.reading reads
    generalize c.access.regState = r at writing unfinished reading
    cases r with
    | done => exact unfinished rfl
    | wrAW word => cases reading
    | wrW word => cases reading
    | wrDoneA => cases reading
    | idle => cases writing
    | rdStatusAR => cases writing
    | rdStatusA => cases writing
    | rdStatusR => cases writing
  · have idle := control.resting reads other
    rw [idle] at writing
    cases writing

theorem progress_start (control : Control c) (entered : c.access.regState = .wrAW .bufLo) :
    Progress c c [] [] := by
  have writing : c.access.regState.writing = true := by
    rw [entered]
    rfl
  have unfinished : c.access.regState ≠ .done := by
    rw [entered]
    exact RegState.noConfusion
  refine ⟨control, control.writes writing unfinished, rfl, ?_, ?_⟩ <;> rw [entered] <;> rfl

/-- The address is offered until it is accepted. -/
theorem address_offered (r : RegState) (ready : Bool) :
    (if r.addressDone then [registerBurst] else []) ++
        (if ready then (if r.awValid then some registerBurst else none).toList else []) =
      if (r.addressDone || r.awValid && ready) = true then [registerBurst] else [] := by
  cases r <;> cases ready <;> rfl

theorem beats_offered (c : Controller) (ready : Bool) :
    (if ready then c.wOffer.toList else []) = c.access.regState.beats c.current ready := by
  unfold wOffer RegState.beats
  cases c.access.regState.beat <;> cases ready <;> rfl

theorem Progress.clock {c' : Controller} {addresses : List BurstAddress} {beats : List Beat}
    (progress : Progress c c' addresses beats) (running : i.reset = false)
    (unfinished : c'.access.regState ≠ .done) :
    Progress c (c'.clock i) (addresses ++ if i.awReady then c'.awOffer.toList else [])
      (beats ++ if i.wReady then c'.wOffer.toList else []) := by
  rcases progress with ⟨control, writes, latched, addressesEq, beatsEq⟩
  rcases @nextAccess_writing c' i (control.writing writes) unfinished with ⟨-, counted, accepted⟩
  rw [clock_eq_advance running]
  constructor
  case control => exact control.advance i
  case writes =>
    show c'.nextState i = .writeCommand
    simp [nextState, writes, regDone, unfinished]
  case latched =>
    rw [current_advance control (control.handling (Or.inr (Or.inl writes)))
      (by rw [writes]; exact MainState.noConfusion)]
    exact latched
  case addresses =>
    show _ = if (c'.nextAccess i).regState.addressDone then [registerBurst] else []
    rw [accepted, addressesEq]
    exact address_offered _ _
  case beats =>
    show _ = c.current.burst.take (c'.nextAccess i).regState.beatsDone
    rw [counted, beatsEq, beats_offered, latched]
    exact Arbiter.take_beats _ _ _

/-- The cycles of a burst account for its handshakes. -/
theorem progress_after (control : Control c) (entered : c.access.regState = .wrAW .bufLo)
    (running : ∀ i ∈ inputs, i.reset = false)
    (unfinished : ∀ before, before <+: inputs → before ≠ inputs →
      (c.after before).access.regState ≠ .done) :
    Progress c (c.after inputs) (c.addressHandshakes inputs) (c.dataHandshakes inputs) := by
  induction inputs using List.reverseRecOn with
  | nil => exact progress_start control entered
  | append_singleton inputs i ih =>
    have earlier := ih (fun j member => running j (List.mem_append_left _ member)) (by
      intro before initial shorter
      refine unfinished before (initial.trans (List.prefix_append _ _)) ?_
      intro same
      have lengths := initial.length_le
      rw [same, List.length_append, List.length_singleton] at lengths
      omega)
    have now := unfinished inputs (List.prefix_append _ _) (by simp)
    have next := earlier.clock (running i (by simp)) now
    rw [after_append, addressHandshakes, dataHandshakes, cycles_append, List.flatMap_append,
      List.flatMap_append, List.flatMap_singleton, List.flatMap_singleton]
    exact next

/-! ## Holding an offer -/

/-- Whatever the controller offers in a cycle in which it is not accepted, it offers in the next. -/
theorem awOffer_held (running : i.reset = false) (refused : i.awReady = false)
    {address : BurstAddress} (offered : c.awOffer = some address) :
    (c.clock i).awOffer = some address := by
  rw [clock_eq_advance running]
  unfold awOffer at offered ⊢
  have next : (c.nextAccess i).regState.awValid = true := by
    unfold nextAccess
    cases access : c.access.regState with
    | wrAW word =>
      rw [refused]
      cases i.wReady
      · simp [access, RegState.awValid]
      · cases word <;> rfl
    | wrDoneA => simp [refused, access, RegState.awValid]
    | idle => simp [access, RegState.awValid] at offered
    | rdStatusAR => simp [access, RegState.awValid] at offered
    | rdStatusA => simp [access, RegState.awValid] at offered
    | rdStatusR => simp [access, RegState.awValid] at offered
    | wrW word => simp [access, RegState.awValid] at offered
    | done => simp [access, RegState.awValid] at offered
  rw [show (c.advance i).access = c.nextAccess i from rfl, if_pos next]
  split at offered
  · exact offered
  · cases offered

theorem wOffer_held (control : Control c) (running : i.reset = false) (refused : i.wReady = false)
    {beat : Beat} (offered : c.wOffer = some beat) : (c.clock i).wOffer = some beat := by
  rcases Option.map_eq_some_iff.mp offered with ⟨word, here, same⟩
  have writing : c.access.regState.writing = true ∧ c.access.regState ≠ .done := by
    cases access : c.access.regState <;> rw [access] at here <;>
      first | exact ⟨rfl, RegState.noConfusion⟩ | cases here
  have writes := control.writes writing.1 writing.2
  have next : (c.nextAccess i).regState.beat = some word := by
    unfold nextAccess
    cases access : c.access.regState with
    | wrAW first =>
      rw [access] at here
      rw [refused]
      cases i.awReady
      · simpa [access] using here
      · exact here
    | wrW first =>
      rw [access] at here
      rw [refused]
      simpa [access] using here
    | idle => simp [access, RegState.beat] at here
    | rdStatusAR => simp [access, RegState.beat] at here
    | rdStatusA => simp [access, RegState.beat] at here
    | rdStatusR => simp [access, RegState.beat] at here
    | wrDoneA => simp [access, RegState.beat] at here
    | done => simp [access, RegState.beat] at here
  have latched : (c.advance i).current = c.current :=
    current_advance control (control.handling (Or.inr (Or.inl writes)))
      (by rw [writes]; exact MainState.noConfusion)
  rw [clock_eq_advance running, wOffer, latched,
    show (c.advance i).access = c.nextAccess i from rfl, next, Option.map_some, same]

/-- For every sequence of ready signals from `WrBufLo_AW` on: when the register access gets to
`Done`, one address and the six words of the command in the registers have been accepted, the last
word with `p_nvme_WLAST`; and what is offered on a channel and not accepted is offered again. -/
theorem register_burst (reachable : Reachable c) (entered : c.access.regState = .wrAW .bufLo)
    (running : ∀ i ∈ inputs, i.reset = false)
    (unfinished : ∀ before, before <+: inputs → before ≠ inputs →
      (c.after before).access.regState ≠ .done) :
    ((c.after inputs).access.regState = .done →
        c.addressHandshakes inputs = [⟨0, 5⟩] ∧
        c.dataHandshakes inputs =
          [⟨bits c.command.cmd.bufferAddr 31 0, false⟩,
            ⟨bits c.command.cmd.bufferAddr 63 32, false⟩,
            ⟨bits c.command.cmd.blockAddr 31 0, false⟩,
            ⟨bits c.command.cmd.blockAddr 63 32, false⟩,
            ⟨bits c.command.cmd.blockCnt 31 0, false⟩,
            ⟨nvmeControlWord c.command.cmdWrNotRd c.command.cmd.drive, true⟩]) ∧
      ∀ i : Inputs, i.reset = false →
        (∀ address, (c.after inputs).awOffer = some address → i.awReady = false →
          ((c.after inputs).clock i).awOffer = some address) ∧
        ∀ beat, (c.after inputs).wOffer = some beat → i.wReady = false →
          ((c.after inputs).clock i).wOffer = some beat := by
  have progress := progress_after reachable.control entered running unfinished
  constructor
  · intro done
    rw [progress.addresses, progress.beats, done]
    exact ⟨rfl, rfl⟩
  · intro i still
    constructor
    · intro address offered refused
      exact awOffer_held still refused offered
    · intro beat offered refused
      exact wOffer_held progress.control still refused offered

/-- Inputs without a request, with the ready signals of the two channels. -/
def channels (awReady wReady : Bool) : Inputs :=
  ⟨false, false, 0, false, 0, false, false, false, false, 0, awReady, wReady⟩

/-- A read command for 3 blocks. -/
def readRequest : Inputs :=
  { channels false false with cmdRdValid := true, cmdRdData := 7 + 9 * 2 ^ 64 + 3 * 2 ^ 128 }

/-- The cycles up to the burst of the command. -/
def beforeBurst : List Inputs :=
  [channels false false, readRequest, readRequest, channels false false, channels false false]

/-- The address is accepted with the third word, and the last word has to wait. -/
def lateAddress : List Inputs :=
  [channels false true, channels false true, channels true true, channels false true,
    channels false true, channels false false, channels false true]

theorem register_burst_lateAddress :
    ((afterReset fun _ => true).after beforeBurst).access.regState = .wrAW .bufLo ∧
      ((afterReset fun _ => true).after beforeBurst).dataHandshakes lateAddress =
        [⟨7, false⟩, ⟨0, false⟩, ⟨9, false⟩, ⟨0, false⟩, ⟨3, false⟩, ⟨16, true⟩] := by
  have entered : ((afterReset fun _ => true).after beforeBurst).access.regState = .wrAW .bufLo := by
    decide +kernel
  have unfinished : ∀ before, before <+: lateAddress → before ≠ lateAddress →
      (((afterReset fun _ => true).after beforeBurst).after before).access.regState ≠ .done := by
    intro before initial shorter
    have all : ∀ n < 7, (((afterReset fun _ => true).after beforeBurst).after
        (lateAddress.take n)).access.regState ≠ .done := by
      decide +kernel
    have taken := List.prefix_iff_eq_take.mp initial
    rw [taken]
    refine all _ ?_
    by_contra long
    refine shorter (initial.eq_of_length_le ?_)
    exact Nat.le_of_not_lt long
  have burst := (register_burst ⟨_, _, rfl⟩ entered (by decide) unfinished).1 (by decide +kernel)
  refine ⟨entered, burst.2.trans ?_⟩
  decide +kernel

end Controller

end MetalFs.Fpga
