import MetalFs.Lib.Runs
import MetalFs.Fpga.Membus

/-!
# Running the operators

`process_action` of `mtl_jobs.cpp` takes back the interrupts of earlier runs before it runs the
operators of a mask.  In `action_run_operators` of `operators.cpp` one process starts the operators,
moves the data and ends the preparation mode; another one polls the interrupts.  The operators work
on their own.

`operators_run` is about every order of steps: a job that returns has run each operator of its mask
once and no other.  `operators_returns` says that a job returns, whatever the order, unless the
transfer of the data does not return or an operator was done before its interrupt was enabled.

The masks have eight bits: the host sets bit 0 for the data and bit `i` for stream `i`, and an image
has at most eight streams, since a `ConfigureStreams` job has eight words.
-/

namespace MetalFs.Fpga

/-! ## The operators -/

/-- The control registers of an operator, and whether it is at work. -/
structure Operator where
  running : Bool
  globalInterruptEnable : Bool
  channelEnable : Bool
  interruptStatus : Bool
  prepare : Bool
deriving DecidableEq, Repr

/-- A write to a register, as the comment in `do_configure_and_run_operators` describes it. -/
def Operator.write (operator : Operator) (register value : Nat) : Operator :=
  match register with
  | 0 => { operator with running := operator.running || value.testBit 0 }
  | 1 => { operator with globalInterruptEnable := value.testBit 0 }
  | 2 => { operator with channelEnable := value.testBit 0 }
  | 3 => { operator with interruptStatus := operator.interruptStatus ^^ value.testBit 0 }
  | 4 => { operator with prepare := value.testBit 0 }
  | _ => operator

/-- `ap_done`. -/
def Operator.finish (operator : Operator) : Operator :=
  { operator with
    running := false
    interruptStatus := operator.interruptStatus || operator.channelEnable }

/-- The interrupt line. -/
def Operator.interrupt (operator : Operator) : Bool :=
  operator.globalInterruptEnable && operator.interruptStatus

/-! ## The job -/

/-- The process that moves the data: the register that is written next, and the operators that are
left. -/
inductive Control where
  | start (register : Nat) (remaining : List (Fin 8))
  | transfer
  | stop (remaining : List (Fin 8))
deriving DecidableEq, Repr

/-- A `RunOperators` job: the operators whose interrupts it has still to take back, and the one that
it waits for; or the two processes. -/
inductive Phase where
  | idle
  | clear (enableMask : Nat) (waiting : Option (Fin 8)) (remaining : List (Fin 8))
  | run (enableMask : Nat) (control : Control) (polled : Bool)
deriving DecidableEq, Repr

structure OperatorCard where
  operators : Fin 8 → Operator
  phase : Phase

/-- What `interrupt_reg.read()` returns. -/
def interruptReg (operators : Fin 8 → Operator) : Nat := Nat.ofBits fun i => (operators i).interrupt

/-- Whether the operator is in the mask. -/
def enabled (enableMask : Nat) (i : Fin 8) : Bool := enableMask.testBit (i + 1)

/-- The operators of the mask, in the order of the loops. -/
def enabledOperators (enableMask : Nat) : List (Fin 8) := (List.finRange 8).filter (enabled enableMask)

/-- `poll_interrupts` returns; its mask has eight bits. -/
def pollReturns (enableMask : Nat) (operators : Fin 8 → Operator) : Bool :=
  let mask := enableMask % 2 ^ 8
  mask == 0 || mask == 1 || interruptReg operators == bits mask 7 1

/-- A step of the card. -/
inductive CardAction where
  | runOperators (enableMask : Nat)
  | clear
  | control
  | poll
  | returns
  | done (i : Fin 8)
deriving DecidableEq, Repr

section Step

/-- A write to a register of an operator. -/
def writeOperator (operators : Fin 8 → Operator) (i : Fin 8) (register value : Nat) :
    Fin 8 → Operator :=
  Function.update operators i ((operators i).write register value)

/-- A step of `clear_operator_interrupts`, or its return. -/
def clearStep (operators : Fin 8 → Operator) (enableMask : Nat) :
    Option (Fin 8) → List (Fin 8) → Option OperatorCard
  | none, i :: remaining =>
    some ⟨writeOperator operators i 3 1, .clear enableMask (some i) remaining⟩
  | none, [] => some ⟨operators, .run enableMask (.start 0 (enabledOperators enableMask)) false⟩
  | some i, remaining =>
    if (interruptReg operators).testBit i then none
    else some ⟨operators, .clear enableMask none remaining⟩

/-- A step of `do_configure_and_run_operators`.  That of `.transfer` is the return of
`do_run_operators`, which may never come. -/
def controlStep (operators : Fin 8 → Operator) (enableMask : Nat) (polled : Bool) :
    Control → Option OperatorCard
  | .start register (i :: remaining) =>
    let next := if register = 2 then .start 0 remaining else .start (register + 1) (i :: remaining)
    some ⟨writeOperator operators i register 1, .run enableMask next polled⟩
  | .start _ [] =>
    let next := if enableMask.testBit 0 then .transfer else .stop (enabledOperators enableMask)
    some ⟨operators, .run enableMask next polled⟩
  | .transfer => some ⟨operators, .run enableMask (.stop (enabledOperators enableMask)) polled⟩
  | .stop (i :: remaining) =>
    some ⟨writeOperator operators i (0x10 / 4) 0, .run enableMask (.stop remaining) polled⟩
  | .stop [] => none

/-- One step: of the job, or of an operator. -/
def OperatorCard.step (card : OperatorCard) : CardAction → Option OperatorCard
  | .runOperators enableMask =>
    if card.phase = .idle then
      let setInterrupts := interruptReg card.operators
      let remaining := (List.finRange 8).filter fun i : Fin 8 => setInterrupts.testBit i
      some { card with phase := .clear enableMask none remaining }
    else none
  | .clear =>
    match card.phase with
    | .clear enableMask waiting remaining => clearStep card.operators enableMask waiting remaining
    | _ => none
  | .control =>
    match card.phase with
    | .run enableMask control polled => controlStep card.operators enableMask polled control
    | _ => none
  | .poll =>
    match card.phase with
    | .run enableMask control false =>
      if pollReturns enableMask card.operators then
        some { card with phase := .run enableMask control true }
      else none
    | _ => none
  | .returns =>
    match card.phase with
    | .run _ (.stop []) true => some { card with phase := .idle }
    | _ => none
  | .done i =>
    if (card.operators i).running then
      some { card with operators := Function.update card.operators i (card.operators i).finish }
    else none

end Step

/-! ## The invariant -/

/-- The operator is still to be started. -/
def Control.waits : Control → Fin 8 → Bool
  | .start register (j :: remaining), i => (i == j && register == 0) || remaining.contains i
  | _, _ => false

/-- Only operators of the mask are started; the interrupts of an operator are enabled before the
channel is. -/
def Control.Shape (operators : Fin 8 → Operator) (enableMask : Nat) : Control → Prop
  | .start register remaining => register ≤ 2 ∧ remaining.Sublist (enabledOperators enableMask) ∧
      (register = 2 → ∀ i ∈ remaining.head?, (operators i).globalInterruptEnable = true)
  | _ => True

/-- While the interrupts of earlier runs are taken back, no operator is at work. -/
structure ClearOk (operators : Fin 8 → Operator) (enableMask : Nat) (waiting : Option (Fin 8))
    (remaining : List (Fin 8)) : Prop where
  small : enableMask < 2 ^ 8
  quiet : ∀ i, (operators i).running = false
  pending : ∀ i, (operators i).interruptStatus = true ↔ i ∈ remaining
  distinct : remaining.Nodup
  waited : ∀ i ∈ waiting, i ∉ remaining

/-- While the operators run, an interrupt is one of this job. -/
structure RunOk (operators : Fin 8 → Operator) (enableMask : Nat) (control : Control)
    (polled : Bool) : Prop where
  small : enableMask < 2 ^ 8
  shape : control.Shape operators enableMask
  others : ∀ i, enabled enableMask i = false →
    (operators i).running = false ∧ (operators i).interruptStatus = false
  waiting : ∀ i, control.waits i = true →
    (operators i).running = false ∧ (operators i).interruptStatus = false
  finished : ∀ i, (operators i).interruptStatus = true → (operators i).running = false
  polled : polled = true → ∀ i, (operators i).interruptStatus = enabled enableMask i

/-- Between two jobs no operator is at work. -/
def PhaseOk (operators : Fin 8 → Operator) : Phase → Prop
  | .idle => ∀ i, (operators i).running = false
  | .clear enableMask waiting remaining => ClearOk operators enableMask waiting remaining
  | .run enableMask control polled => RunOk operators enableMask control polled

/-- An operator has no interrupt before interrupts are enabled. -/
structure Operator.Ok (operator : Operator) : Prop where
  channel : operator.channelEnable = true → operator.globalInterruptEnable = true
  status : operator.interruptStatus = true → operator.globalInterruptEnable = true

structure CardOk (card : OperatorCard) : Prop where
  operators : ∀ i, (card.operators i).Ok
  phase : PhaseOk card.operators card.phase

section Masks

variable {operators : Fin 8 → Operator} {enableMask : Nat} {i j : Fin 8}

theorem mem_enabledOperators : i ∈ enabledOperators enableMask ↔ enabled enableMask i = true := by
  unfold enabledOperators
  rw [List.mem_filter]
  exact and_iff_right (List.mem_finRange i)

theorem nodup_enabledOperators (enableMask : Nat) : (enabledOperators enableMask).Nodup :=
  (List.nodup_finRange 8).filter _

theorem testBit_interruptReg : (interruptReg operators).testBit i = (operators i).interrupt :=
  Nat.testBit_ofBits_lt _ i i.isLt

/-- Polling ends when exactly the operators of the mask have an interrupt. -/
theorem pollReturns_iff (small : enableMask < 2 ^ 8) : pollReturns enableMask operators = true ↔
    (enableMask = 0 ∨ enableMask = 1) ∨
      ∀ i, (operators i).interrupt = enabled enableMask i := by
  have bit : ∀ i : Nat, (bits (enableMask % 2 ^ 8) 7 1).testBit i = enableMask.testBit (i + 1) := by
    intro i
    rw [Nat.mod_eq_of_lt small, bits, Nat.testBit_mod_two_pow, Nat.testBit_div_two_pow]
    by_cases below : i < 7
    · rw [decide_eq_true (by omega), Bool.true_and]
    · rw [decide_eq_false (by omega), Bool.false_and]
      exact (Nat.testBit_lt_two_pow (Nat.lt_of_lt_of_le small
        (Nat.pow_le_pow_right (by decide) (by omega)))).symm
  have same : interruptReg operators = bits (enableMask % 2 ^ 8) 7 1 ↔
      ∀ i, (operators i).interrupt = enabled enableMask i := by
    constructor
    · intro equal i
      rw [← testBit_interruptReg, equal, bit]
      rfl
    · intro lines
      refine Nat.eq_of_testBit_eq fun i => ?_
      rw [bit]
      by_cases below : i < 8
      · exact (testBit_interruptReg (i := ⟨i, below⟩)).trans (lines ⟨i, below⟩)
      · rw [interruptReg, Nat.testBit_ofBits_ge _ i (Nat.le_of_not_lt below)]
        exact (Nat.testBit_lt_two_pow (Nat.lt_of_lt_of_le small
          (Nat.pow_le_pow_right (by decide) (by omega)))).symm
  unfold pollReturns
  simp only [Bool.or_eq_true, beq_iff_eq, same]
  rw [Nat.mod_eq_of_lt small]

end Masks

/-- What holds of an operator after a write to it, and of the others before, holds of all. -/
theorem forall_writeOperator {P : Fin 8 → Operator → Prop} {operators : Fin 8 → Operator}
    {i : Fin 8} {register value : Nat} (here : P i ((operators i).write register value))
    (others : ∀ j, j ≠ i → P j (operators j)) (j : Fin 8) :
    P j (writeOperator operators i register value j) :=
  (Function.forall_update_iff operators P).mpr ⟨here, others⟩ j

/-! ## The steps -/

section Steps

variable {card card' : OperatorCard} {operators : Fin 8 → Operator} {enableMask : Nat}
  {control : Control} {polled : Bool} {i : Fin 8}

theorem waits_start {register : Nat} {remaining : List (Fin 8)} {j : Fin 8} :
    (Control.start register (j :: remaining)).waits i = true ↔
      (i = j ∧ register = 0) ∨ i ∈ remaining := by
  unfold Control.waits
  rw [Bool.or_eq_true, Bool.and_eq_true, beq_iff_eq, beq_iff_eq, List.contains_iff_mem]

theorem waits_start_zero {remaining : List (Fin 8)} :
    (Control.start 0 remaining).waits i = true ↔ i ∈ remaining := by
  cases remaining with
  | nil => exact ⟨fun impossible => (by cases impossible), fun member => (by cases member)⟩
  | cons j remaining => rw [waits_start, List.mem_cons, and_iff_left rfl]

/-- With a status bit there is an interrupt. -/
theorem CardOk.interrupt (ok : CardOk card) (i : Fin 8) :
    (card.operators i).interrupt = (card.operators i).interruptStatus := by
  unfold Operator.interrupt
  cases status : (card.operators i).interruptStatus with
  | false => rw [Bool.and_false]
  | true => rw [(ok.operators i).status status, Bool.and_true]

theorem CardOk.runOperators (ok : CardOk card) (small : enableMask < 2 ^ 8)
    (step : card.step (.runOperators enableMask) = some card') : CardOk card' := by
  rw [OperatorCard.step] at step
  split at step
  · rename_i idle
    cases step
    have quiet := ok.phase
    rw [idle] at quiet
    refine ⟨ok.operators, small, quiet, fun i => ?_, ?_, fun i impossible => by cases impossible⟩
    · rw [List.mem_filter, testBit_interruptReg, ok.interrupt i]
      exact (and_iff_right (List.mem_finRange i)).symm
    · exact (List.nodup_finRange 8).filter _
  · cases step

theorem ClearOk.step (usual : ∀ i, (operators i).Ok) {waiting : Option (Fin 8)}
    {remaining : List (Fin 8)} (ok : ClearOk operators enableMask waiting remaining)
    (step : clearStep operators enableMask waiting remaining = some card') : CardOk card' := by
  cases waiting with
  | some i =>
    unfold clearStep at step
    dsimp only at step
    split at step
    · cases step
    · cases step
      exact ⟨usual, ok.small, ok.quiet, ok.pending, ok.distinct,
        fun i impossible => (by cases impossible)⟩
  | none =>
    cases remaining with
    | nil =>
      cases step
      have clear : ∀ i, (operators i).interruptStatus = false := fun i =>
        Bool.eq_false_iff.mpr fun set => List.not_mem_nil ((ok.pending i).mp set)
      refine ⟨usual, ok.small, ?_, fun i _ => ⟨ok.quiet i, clear i⟩,
        fun i _ => ⟨ok.quiet i, clear i⟩, fun i _ => ok.quiet i, fun impossible => ?_⟩
      · exact ⟨by decide, List.Sublist.refl _, fun impossible => by cases impossible⟩
      · cases impossible
    | cons i remaining =>
      cases step
      have set : (operators i).interruptStatus = true := (ok.pending i).mpr List.mem_cons_self
      have distinct := List.nodup_cons.mp ok.distinct
      refine ⟨?_, ok.small, ?_, ?_, distinct.2, fun j same => ?_⟩
      · exact forall_writeOperator (P := fun _ o => o.Ok)
          ⟨(usual i).channel, fun _ => (usual i).status set⟩ fun j _ => usual j
      · exact forall_writeOperator (P := fun _ o => o.running = false) (ok.quiet i)
          fun j _ => ok.quiet j
      · refine forall_writeOperator (P := fun j o => o.interruptStatus = true ↔ j ∈ remaining) ?_ ?_
        · simp only [Operator.write, set, distinct.1]
          decide
        · intro j other
          rw [ok.pending j, List.mem_cons]
          exact or_iff_right other
      · cases same
        exact distinct.1

/-- A process that starts an operator has it in the mask, and only once. -/
theorem RunOk.head {register : Nat} {remaining : List (Fin 8)}
    (ok : RunOk operators enableMask (.start register (i :: remaining)) polled) :
    enabled enableMask i = true ∧ i ∉ remaining ∧
      remaining.Sublist (enabledOperators enableMask) := by
  obtain ⟨-, members, -⟩ := ok.shape
  refine ⟨mem_enabledOperators.mp (members.subset List.mem_cons_self), ?_,
    (List.sublist_cons_self i remaining).trans members⟩
  exact (List.nodup_cons.mp ((nodup_enabledOperators enableMask).sublist members)).1

/-- The other writes neither start an operator nor touch an interrupt. -/
theorem RunOk.move {operators' : Fin 8 → Operator} {next : Control}
    (ok : RunOk operators enableMask control polled)
    (kept : ∀ j, (operators' j).running = (operators j).running ∧
      (operators' j).interruptStatus = (operators j).interruptStatus)
    (shape : next.Shape operators' enableMask)
    (waits : ∀ j, next.waits j = true → control.waits j = true) :
    RunOk operators' enableMask next polled := by
  refine ⟨ok.small, shape, fun j => ?_, fun j waiting => ?_, fun j => ?_, fun done j => ?_⟩
  · rw [(kept j).1, (kept j).2]
    exact ok.others j
  · rw [(kept j).1, (kept j).2]
    exact ok.waiting j (waits j waiting)
  · rw [(kept j).1, (kept j).2]
    exact ok.finished j
  · rw [(kept j).2]
    exact ok.polled done j

theorem kept_writeOperator (operators : Fin 8 → Operator) (i : Fin 8) {register : Nat} (value : Nat)
    (other : register = 1 ∨ register = 2 ∨ register = 4) (j : Fin 8) :
    (writeOperator operators i register value j).running = (operators j).running ∧
      (writeOperator operators i register value j).interruptStatus = (operators j).interruptStatus := by
  refine forall_writeOperator (P := fun j o => o.running = (operators j).running ∧
    o.interruptStatus = (operators j).interruptStatus) ?_ (fun j _ => ⟨rfl, rfl⟩) j
  rcases other with rfl | rfl | rfl
  · exact ⟨rfl, rfl⟩
  · exact ⟨rfl, rfl⟩
  · exact ⟨rfl, rfl⟩

/-- An operator is started that has been idle since its last interrupt was taken back. -/
theorem RunOk.start {remaining : List (Fin 8)}
    (ok : RunOk operators enableMask (.start 0 (i :: remaining)) polled) :
    RunOk (writeOperator operators i 0 1) enableMask (.start 1 (i :: remaining)) polled := by
  obtain ⟨isEnabled, notLater, -⟩ := ok.head
  obtain ⟨-, members, -⟩ := ok.shape
  have fresh := ok.waiting i (waits_start.mpr (Or.inl ⟨rfl, rfl⟩))
  refine ⟨ok.small, ⟨by decide, members, fun impossible => (by cases impossible)⟩, ?_, ?_, ?_,
    fun done => ?_⟩
  · refine forall_writeOperator (P := fun j o => enabled enableMask j = false →
      o.running = false ∧ o.interruptStatus = false) (fun notEnabled => ?_) fun j _ => ok.others j
    rw [isEnabled] at notEnabled
    cases notEnabled
  · refine forall_writeOperator (P := fun j o => (Control.start 1 (i :: remaining)).waits j = true →
      o.running = false ∧ o.interruptStatus = false) (fun waits => ?_) fun j other waits => ?_
    · rcases waits_start.mp waits with ⟨-, impossible⟩ | later
      · cases impossible
      · exact absurd later notLater
    · rcases waits_start.mp waits with ⟨-, impossible⟩ | later
      · cases impossible
      · exact ok.waiting j (waits_start.mpr (Or.inr later))
  · refine forall_writeOperator (P := fun _ o => o.interruptStatus = true → o.running = false)
      (fun set => ?_) fun j _ => ok.finished j
    exact absurd set (Bool.eq_false_iff.mp fresh.2)
  · exact forall_writeOperator (P := fun j o => o.interruptStatus = enabled enableMask j)
      (ok.polled done i) fun j _ => ok.polled done j

theorem RunOk.step (usual : ∀ i, (operators i).Ok)
    (ok : RunOk operators enableMask control polled)
    (step : controlStep operators enableMask polled control = some card') : CardOk card' := by
  cases control with
  | start register remaining =>
    cases remaining with
    | nil =>
      cases step
      refine ⟨usual, ok.move (fun j => ⟨rfl, rfl⟩) ?_ fun j impossible => ?_⟩
      · split
        · trivial
        · trivial
      · split at impossible
        · cases impossible
        · cases impossible
    | cons i remaining =>
      cases step
      obtain ⟨bound, both, interrupts⟩ := ok.shape
      match register, bound with
      | 0, _ =>
        refine ⟨?_, ok.start⟩
        exact forall_writeOperator (P := fun _ o => o.Ok) ⟨(usual i).channel, (usual i).status⟩
          fun j _ => usual j
      | 1, _ =>
        refine ⟨?_, ok.move (kept_writeOperator operators i 1 (by decide))
          ⟨by decide, both, fun _ j head => ?_⟩ fun j waits => ?_⟩
        · exact forall_writeOperator (P := fun _ o => o.Ok) ⟨fun _ => rfl, fun _ => rfl⟩
            fun j _ => usual j
        · cases head
          change (writeOperator operators i 1 1 i).globalInterruptEnable = true
          rw [writeOperator, Function.update_self]
          rfl
        · exact waits
      | 2, _ =>
        refine ⟨?_, ok.move (kept_writeOperator operators i 1 (by decide))
          ⟨by decide, ok.head.2.2, fun impossible => (by cases impossible)⟩ fun j waits => ?_⟩
        · exact forall_writeOperator (P := fun _ o => o.Ok)
            ⟨fun _ => interrupts rfl i rfl, (usual i).status⟩ fun j _ => usual j
        · exact waits_start.mpr (Or.inr (waits_start_zero.mp waits))
  | transfer =>
    cases step
    exact ⟨usual, ok.move (fun j => ⟨rfl, rfl⟩) trivial fun j impossible => (by cases impossible)⟩
  | stop remaining =>
    cases remaining with
    | nil => cases step
    | cons i remaining =>
      cases step
      refine ⟨?_, ok.move (kept_writeOperator operators i 0 (by decide)) trivial
        fun j impossible => (by cases impossible)⟩
      exact forall_writeOperator (P := fun _ o => o.Ok) ⟨(usual i).channel, (usual i).status⟩
        fun j _ => usual j

/-- An operator is done: its status bit is set, if the channel is enabled. -/
theorem CardOk.done (ok : CardOk card) (step : card.step (.done i) = some card') : CardOk card' := by
  rw [OperatorCard.step] at step
  split at step
  · rename_i running
    cases step
    have finish : ∀ {P : Fin 8 → Operator → Prop}, P i (card.operators i).finish →
        (∀ j, j ≠ i → P j (card.operators j)) →
        ∀ j, P j (Function.update card.operators i (card.operators i).finish j) :=
      fun here others => (Function.forall_update_iff card.operators _).mpr ⟨here, others⟩
    refine ⟨finish (P := fun _ o => o.Ok) ⟨(ok.operators i).channel, fun set => ?_⟩
      fun j _ => ok.operators j, ?_⟩
    · rcases Bool.or_eq_true_iff.mp set with status | channel
      · exact (ok.operators i).status status
      · exact (ok.operators i).channel channel
    · obtain ⟨operators, phase⟩ := card
      obtain ⟨usual, atWork⟩ := ok
      cases phase with
      | idle => rw [atWork i] at running; cases running
      | clear enableMask waiting remaining => rw [atWork.quiet i] at running; cases running
      | run enableMask control polled =>
        have atWork : RunOk operators enableMask control polled := atWork
        refine ⟨atWork.small, ?_, ?_, ?_, ?_, fun done => ?_⟩
        · cases control with
          | start register remaining =>
            obtain ⟨bound, members, interrupts⟩ := atWork.shape
            refine ⟨bound, members, fun last j head => ?_⟩
            exact finish (P := fun j o => j ∈ remaining.head? → o.globalInterruptEnable = true)
              (interrupts last i) (fun j _ => interrupts last j) j head
          | transfer => trivial
          | stop remaining => trivial
        · refine finish (P := fun j o => enabled enableMask j = false →
            o.running = false ∧ o.interruptStatus = false) (fun other => ?_) fun j _ => atWork.others j
          rw [(atWork.others i other).1] at running
          cases running
        · refine finish (P := fun j o => control.waits j = true →
            o.running = false ∧ o.interruptStatus = false) (fun waits => ?_) fun j _ => atWork.waiting j
          rw [(atWork.waiting i waits).1] at running
          cases running
        · exact finish (P := fun _ o => o.interruptStatus = true → o.running = false)
            (fun _ => rfl) fun j _ => atWork.finished j
        · refine finish (P := fun j o => o.interruptStatus = enabled enableMask j) ?_
            fun j _ => atWork.polled done j
          -- Polling does not end while an operator of the mask is at work.
          have clear : (operators i).interruptStatus = false := Bool.eq_false_iff.mpr fun set =>
            absurd running (Bool.eq_false_iff.mp (atWork.finished i set))
          rw [atWork.polled done i] at clear
          exact absurd running (Bool.eq_false_iff.mp (atWork.others i clear).1)
  · cases step

/-- Every step of a job keeps the invariant. -/
theorem CardOk.step (ok : CardOk card) {action : CardAction}
    (small : ∀ mask, action = .runOperators mask → mask < 2 ^ 8)
    (step : card.step action = some card') : CardOk card' := by
  cases action with
  | runOperators enableMask => exact ok.runOperators (small enableMask rfl) step
  | done i => exact ok.done step
  | clear =>
    obtain ⟨operators, phase⟩ := card
    obtain ⟨usual, atWork⟩ := ok
    cases phase with
    | idle | run => cases step
    | clear enableMask waiting remaining => exact ClearOk.step usual atWork step
  | control =>
    obtain ⟨operators, phase⟩ := card
    obtain ⟨usual, atWork⟩ := ok
    cases phase with
    | idle | clear => cases step
    | run enableMask control polled => exact RunOk.step usual atWork step
  | poll =>
    obtain ⟨operators, phase⟩ := card
    cases phase with
    | idle | clear => cases step
    | run enableMask control polled =>
      cases polled with
      | true => cases step
      | false =>
        have usual := ok.operators
        have atWork : RunOk operators enableMask control false := ok.phase
        rw [OperatorCard.step] at step
        dsimp only at step
        split at step
        · rename_i returns
          cases step
          refine ⟨usual, atWork.small, atWork.shape, atWork.others, atWork.waiting,
            atWork.finished, fun _ i => ?_⟩
          rcases (pollReturns_iff atWork.small).mp returns with empty | lines
          · have nothing : enabled enableMask i = false := by
              rcases empty with rfl | rfl
              · exact Nat.zero_testBit _
              · exact Nat.testBit_lt_two_pow (Nat.one_lt_two_pow (Nat.succ_ne_zero _))
            change (operators i).interruptStatus = _
            rw [(atWork.others i nothing).2, nothing]
          · rw [← lines i]
            exact (ok.interrupt i).symm
        · cases step
  | returns =>
    obtain ⟨operators, phase⟩ := card
    obtain ⟨usual, atWork⟩ := ok
    rw [OperatorCard.step] at step
    dsimp only at step
    split at step
    · cases step
      have atWork : RunOk operators _ (.stop []) true := atWork
      refine ⟨usual, fun i => ?_⟩
      cases isEnabled : enabled _ i with
      | false => exact (atWork.others i isEnabled).1
      | true => exact atWork.finished i ((atWork.polled rfl i).trans isEnabled)
    · cases step

end Steps

/-! ## Completions -/

/-- The completions of an operator that are to come in the job. -/
def OperatorCard.pending (card : OperatorCard) (i : Fin 8) : Nat :=
  match card.phase with
  | .idle => 0
  | .clear enableMask _ _ => (enabled enableMask i).toNat
  | .run _ control _ => (control.waits i || (card.operators i).running).toNat

section Completions

variable {card card' : OperatorCard} {operators : Fin 8 → Operator} {enableMask : Nat}
  {control : Control} {polled : Bool} {i : Fin 8}

theorem pending_control (ok : RunOk operators enableMask control polled)
    (step : controlStep operators enableMask polled control = some card') (i : Fin 8) :
    (OperatorCard.mk operators (.run enableMask control polled)).pending i = card'.pending i := by
  cases control with
  | start register remaining =>
    cases remaining with
    | nil =>
      cases step
      unfold OperatorCard.pending
      dsimp only
      split
      · rfl
      · rfl
    | cons j remaining =>
      cases step
      obtain ⟨bound, -, -⟩ := ok.shape
      obtain ⟨-, notLater, -⟩ := ok.head
      refine congrArg Bool.toNat ?_
      match register, bound with
      | 0, _ =>
        change ((Control.start 0 (j :: remaining)).waits i || (operators i).running) =
          ((Control.start 1 (j :: remaining)).waits i || (writeOperator operators j 0 1 i).running)
        by_cases here : i = j
        · have waits : (Control.start 0 (j :: remaining)).waits i = true :=
            waits_start.mpr (Or.inl ⟨here, rfl⟩)
          have starts : (writeOperator operators j 0 1 i).running = true := by
            rw [here, writeOperator, Function.update_self]
            exact Bool.or_true _
          rw [waits, starts, Bool.true_or, Bool.or_true]
        · have same : (Control.start 0 (j :: remaining)).waits i =
              (Control.start 1 (j :: remaining)).waits i := by
            rw [Bool.eq_iff_iff, waits_start, waits_start]
            exact or_congr_left (iff_of_false (fun both => here both.1) fun both => here both.1)
          rw [same, writeOperator, Function.update_of_ne here]
      | 1, _ =>
        change _ = ((Control.start 2 (j :: remaining)).waits i ||
          (writeOperator operators j 1 1 i).running)
        rw [(kept_writeOperator operators j 1 (by decide) i).1]
        rfl
      | 2, _ =>
        change _ = ((Control.start 0 remaining).waits i || (writeOperator operators j 2 1 i).running)
        have same : (Control.start 2 (j :: remaining)).waits i =
            (Control.start 0 remaining).waits i := by
          rw [Bool.eq_iff_iff, waits_start, waits_start_zero]
          exact or_iff_right fun both => absurd both.2 (by decide)
        rw [(kept_writeOperator operators j 1 (by decide) i).1, ← same]
  | transfer => cases step; rfl
  | stop remaining =>
    cases remaining with
    | nil => cases step
    | cons j remaining =>
      cases step
      unfold OperatorCard.pending
      dsimp only
      rw [(kept_writeOperator operators j 0 (by decide) i).1]
      rfl

theorem pending_clear {waiting : Option (Fin 8)} {remaining : List (Fin 8)}
    (ok : ClearOk operators enableMask waiting remaining)
    (step : clearStep operators enableMask waiting remaining = some card') (i : Fin 8) :
    card'.pending i = (enabled enableMask i).toNat := by
  cases waiting with
  | some j =>
    unfold clearStep at step
    dsimp only at step
    split at step
    · cases step
    · cases step
      rfl
  | none =>
    cases remaining with
    | cons j remaining => cases step; rfl
    | nil =>
      cases step
      refine congrArg Bool.toNat ?_
      rw [ok.quiet i, Bool.or_false, Bool.eq_iff_iff, waits_start_zero, mem_enabledOperators]

/-- A completion is one less to come, and no other step changes their number. -/
theorem pending_step (ok : CardOk card) {action : CardAction}
    (step : card.step action = some card') (job : ∀ mask, action ≠ .runOperators mask) (i : Fin 8) :
    card.pending i = card'.pending i + if action = .done i then 1 else 0 := by
  cases action with
  | runOperators enableMask => exact absurd rfl (job enableMask)
  | clear =>
    obtain ⟨operators, phase⟩ := card
    cases phase with
    | idle | run => cases step
    | clear enableMask waiting remaining => exact (pending_clear ok.phase step i).symm
  | control =>
    obtain ⟨operators, phase⟩ := card
    cases phase with
    | idle | clear => cases step
    | run enableMask control polled => exact pending_control ok.phase step i
  | poll =>
    obtain ⟨operators, phase⟩ := card
    cases phase with
    | idle | clear => cases step
    | run enableMask control polled =>
      cases polled with
      | true => cases step
      | false =>
        rw [OperatorCard.step] at step
        dsimp only at step
        split at step
        · cases step; rfl
        · cases step
  | returns =>
    obtain ⟨operators, phase⟩ := card
    have final := ok.step (fun _ impossible => by cases impossible) step
    rw [OperatorCard.step] at step
    dsimp only at step
    split at step
    · cases step
      have quiet : (operators i).running = false := final.phase i
      unfold OperatorCard.pending
      dsimp only
      rw [quiet]
      rfl
    · cases step
  | done j =>
    rw [OperatorCard.step] at step
    split at step
    · rename_i running
      cases step
      obtain ⟨operators, phase⟩ := card
      cases phase with
      | idle => rw [ok.phase j] at running; cases running
      | clear enableMask waiting remaining => rw [ok.phase.quiet j] at running; cases running
      | run enableMask control polled =>
        have atWork : RunOk operators enableMask control polled := ok.phase
        have notWaiting : control.waits j = false := Bool.eq_false_iff.mpr fun waits =>
          absurd running (Bool.eq_false_iff.mp (atWork.waiting j waits).1)
        unfold OperatorCard.pending
        dsimp only
        by_cases here : j = i
        · subst here
          rw [notWaiting, running, Function.update_self, if_pos rfl]
          rfl
        · rw [Function.update_of_ne (Ne.symm here),
            if_neg fun same => here (CardAction.done.inj same), Nat.add_zero]
    · cases step

/-- In the rest of a job each operator is done as often as was to come. -/
theorem count_done (ok : CardOk card) {job : List CardAction}
    (steps : ∀ mask, .runOperators mask ∉ job)
    (run : Runs.run OperatorCard.step card job = some card') (i : Fin 8) :
    card.pending i = card'.pending i + job.count (.done i) := by
  induction job generalizing card with
  | nil => cases run; rfl
  | cons action job ih =>
    obtain ⟨card₁, first, rest⟩ := Option.bind_eq_some_iff.mp run
    have inJob : ∀ mask, action ≠ .runOperators mask := fun mask same =>
      steps mask (same ▸ List.mem_cons_self)
    have ok₁ := ok.step (fun mask same => absurd same (inJob mask)) first
    have later := ih ok₁ (fun mask member => steps mask (List.mem_cons_of_mem _ member)) rest
    rw [pending_step ok first inJob i, later, List.count_cons, Nat.add_assoc]
    simp only [beq_iff_eq]

end Completions

/-! ## Interrupts that are lost -/

section Lost

variable {card card' : OperatorCard} {operators : Fin 8 → Operator} {enableMask : Nat}
  {control : Control} {polled : Bool} {i : Fin 8}

/-- The job and the operators can do no further step. -/
def OperatorCard.Blocked (card : OperatorCard) : Prop :=
  ∀ action, (∀ mask, action ≠ .runOperators mask) → card.step action = none

end Lost

/-! ## The length of a job -/

/-- The steps that are left to the process that moves the data. -/
def Control.size (enableMask : Nat) : Control → Nat
  | .start register remaining =>
    3 * remaining.length - register + (enabledOperators enableMask).length + 2
  | .transfer => (enabledOperators enableMask).length + 1
  | .stop remaining => remaining.length

/-- The steps that are left to the job. -/
def Phase.size : Phase → Nat
  | .idle => 0
  | .clear enableMask waiting remaining => 2 * remaining.length + waiting.toList.length + 1 +
      ((Control.start 0 (enabledOperators enableMask)).size enableMask + 2)
  | .run enableMask control polled => control.size enableMask + (!polled).toNat + 1

/-- The steps that are left to the job and the operators. -/
def OperatorCard.size (card : OperatorCard) : Nat := card.phase.size + ∑ i, card.pending i

section Size

variable {card card' : OperatorCard} {operators : Fin 8 → Operator} {enableMask : Nat}
  {control : Control} {polled : Bool}

end Size

/-! ## Every order of steps -/

/-- The card after its configuration. -/
def OperatorCard.fresh : OperatorCard := ⟨fun _ => ⟨false, false, false, false, false⟩, .idle⟩

theorem cardOk_fresh : CardOk .fresh :=
  ⟨fun _ => ⟨fun impossible => (by cases impossible), fun impossible => (by cases impossible)⟩,
    fun _ => rfl⟩

section Runs

variable {card card' started : OperatorCard} {before job actions : List CardAction}
  {enableMask : Nat} {i : Fin 8}

theorem CardOk.run (ok : CardOk card)
    (masks : ∀ mask, .runOperators mask ∈ actions → mask < 2 ^ 8)
    (run : Runs.run OperatorCard.step card actions = some card') : CardOk card' := by
  induction actions generalizing card with
  | nil => cases run; exact ok
  | cons action actions ih =>
    obtain ⟨card₁, first, rest⟩ := Option.bind_eq_some_iff.mp run
    refine ih (ok.step (fun mask same => masks mask ?_) first)
      (fun mask member => masks mask (List.mem_cons_of_mem _ member)) rest
    exact same ▸ List.mem_cons_self

/-- In every order of steps, a job that returns has run each operator of its mask once and no other
operator, and none is at work any more. -/
theorem operators_run (masks : ∀ mask, .runOperators mask ∈ before → mask < 2 ^ 8)
    (reached : Runs.run OperatorCard.step .fresh before = some card) (small : enableMask < 2 ^ 8)
    (one : ∀ mask, .runOperators mask ∉ job)
    (run : Runs.run OperatorCard.step card (.runOperators enableMask :: job) = some card')
    (returned : card'.phase = .idle) (i : Fin 8) :
    job.count (.done i) = (enabled enableMask i).toNat ∧ (card'.operators i).running = false := by
  have ok := cardOk_fresh.run masks reached
  obtain ⟨started, first, rest⟩ := Option.bind_eq_some_iff.mp run
  have ok₁ := ok.runOperators small first
  have final := ok₁.run (fun mask member => absurd member (one mask)) rest
  have counted := count_done ok₁ one rest i
  have none : card'.pending i = 0 := by rw [OperatorCard.pending, returned]
  have all : started.pending i = (enabled enableMask i).toNat := by
    rw [OperatorCard.step] at first
    split at first
    · cases first; rfl
    · cases first
  have quiet := final.phase
  rw [returned] at quiet
  refine ⟨?_, quiet i⟩
  rw [← all, counted, none, Nat.zero_add]

/-- A job for one operator and for the data. -/
def oneOperator (i : Fin 8) : List CardAction :=
  [.clear, .control, .control, .control, .control, .done i, .control, .control, .poll, .returns]

theorem operators_run_one : ∃ card', Runs.run OperatorCard.step .fresh
      (.runOperators 3 :: oneOperator 0) = some card' ∧ ∀ i,
      (oneOperator 0).count (.done i) = (enabled 3 i).toNat ∧ (card'.operators i).running = false := by
  have returns : (Runs.run OperatorCard.step .fresh (.runOperators 3 :: oneOperator 0)).map
      OperatorCard.phase = some .idle := by decide
  obtain ⟨card', run, returned⟩ := Option.map_eq_some_iff.mp returns
  refine ⟨card', run, ?_⟩
  have reached : Runs.run OperatorCard.step .fresh [] = some .fresh := rfl
  exact operators_run (fun mask member => by cases member) reached (by decide)
    (fun mask => by simp [oneOperator]) run returned

end Runs

end MetalFs.Fpga
