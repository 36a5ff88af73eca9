import MetalFs.Fpga.NvmeData
import MetalFs.Lib.Runs

/-!
# Commands and responses of the NVMe stages

`load_nvme_data` and `write_nvme_data` of `mtl_op_mem.cpp` are two processes each, joined
by the stream `pendingTransfers`: the first one issues a command for an element, the
second one waits for the response to it.  Both decide for themselves which elements have
a command.  The controller answers every command, at any time after it was issued.

`write_nvme_data` issues no command for an element without data, but waits for its
response.
-/

namespace MetalFs.Fpga

/-- `load_nvme_data` and `write_nvme_data`. -/
inductive NvmeStage where
  | load
  | write
deriving DecidableEq, Repr

/-- Whether the first process issues a command for an element of type NVMe. -/
def NvmeStage.issues (stage : NvmeStage) (element : TransferElement) : Bool :=
  match stage with
  | .load => true
  | .write => 0 < element.data.size

/-- `depth` of `pendingTransfers`. -/
def pendingDepth : Nat := 16

/-- The two processes and the streams around them. -/
structure Dataflow where
  input : List TransferElement
  nvmeTransfers : List Nat
  /-- The commands written to `nvme_cmd`. -/
  commands : List NvmeCommand
  /-- The first process is in its loop. -/
  issuing : Bool
  /-- `currentTransfer` of the first process, before it is in `pendingTransfers`. -/
  issued : Option TransferElement
  pendingTransfers : List TransferElement
  /-- The commands the controller has answered. -/
  answered : Nat
  /-- The responses in `nvme_resp`. -/
  responses : Nat
  /-- The second process is in its loop. -/
  collecting : Bool
  /-- `currentTransfer` of the second process, before `nvme_resp.read()` returns. -/
  awaiting : Option TransferElement
  /-- The calls of `nvme_resp.read()`. -/
  reads : Nat
  /-- The elements the second process is done with. -/
  out : List TransferElement
deriving DecidableEq

namespace Dataflow

/-- Both processes before their first element. -/
def start (input : List TransferElement) (nvmeTransfers : List Nat) : Dataflow where
  input := input
  nvmeTransfers := nvmeTransfers
  commands := []
  issuing := true
  issued := none
  pendingTransfers := []
  answered := 0
  responses := 0
  collecting := true
  awaiting := none
  reads := 0
  out := []

/-- What can happen next. -/
inductive Move where
  | issue
  | forward
  | answer
  | fetch
  | collect
deriving DecidableEq, Repr

/-- The first process reads an element and issues its command. -/
def issue (stage : NvmeStage) (s : Dataflow) : Option Dataflow :=
  if s.issuing = false ∨ s.issued ≠ none then none
  else
    match s.input with
    | [] => none
    | currentTransfer :: input =>
      if currentTransfer.data.type ≠ .nvme then
        some { s with input := input, issued := some currentTransfer }
      else
        let dramAddress := u64 (nvmeDRAMBaseOffset + currentTransfer.data.address)
        match s.nvmeTransfers with
        | [] => none
        | nvmeAddress :: nvmeTransfers =>
          some { s with
            input := input
            nvmeTransfers := nvmeTransfers
            commands := s.commands ++ if stage.issues currentTransfer
              then [issueNvmeBlockTransferCommand nvmeAddress dramAddress] else []
            issued := some currentTransfer }

/-- The first process hands the element on, and is done after the last one. -/
def forward (s : Dataflow) : Option Dataflow :=
  match s.issued with
  | none => none
  | some currentTransfer =>
    if s.pendingTransfers.length < pendingDepth then
      some { s with
        issued := none
        pendingTransfers := s.pendingTransfers ++ [currentTransfer]
        issuing := !currentTransfer.last }
    else none

/-- The controller answers a command. -/
def answer (s : Dataflow) : Option Dataflow :=
  if s.answered < s.commands.length then
    some { s with answered := s.answered + 1, responses := s.responses + 1 }
  else none

/-- The second process reads an element. -/
def fetch (s : Dataflow) : Option Dataflow :=
  if s.collecting = false ∨ s.awaiting ≠ none then none
  else
    match s.pendingTransfers with
    | [] => none
    | currentTransfer :: pendingTransfers =>
      some { s with
        pendingTransfers := pendingTransfers
        awaiting := some currentTransfer
        reads := if currentTransfer.data.type = .nvme then s.reads + 1 else s.reads }

/-- The second process is done with the element, if it is of type NVMe with a response. -/
def collect (s : Dataflow) : Option Dataflow :=
  match s.awaiting with
  | none => none
  | some currentTransfer =>
    if currentTransfer.data.type = .nvme then
      if s.responses = 0 then none
      else
        some { s with
          responses := s.responses - 1
          awaiting := none
          out := s.out ++ [currentTransfer]
          collecting := !currentTransfer.last }
    else
      some { s with
        awaiting := none
        out := s.out ++ [currentTransfer]
        collecting := !currentTransfer.last }

/-- One move. -/
def step (stage : NvmeStage) (s : Dataflow) : Move → Option Dataflow
  | .issue => s.issue stage
  | .forward => s.forward
  | .answer => s.answer
  | .fetch => s.fetch
  | .collect => s.collect

/-- No move is possible. -/
def Blocked (stage : NvmeStage) (s : Dataflow) : Prop := ∀ move, s.step stage move = none

/-- Both processes have left their loops. -/
def Finished (s : Dataflow) : Prop := s.issuing = false ∧ s.collecting = false

end Dataflow

/-- The elements of type NVMe. -/
def nvmeCount (elements : List TransferElement) : Nat :=
  elements.countP fun element => element.data.type = .nvme

/-- The elements with a command. -/
def issuedCount (stage : NvmeStage) (elements : List TransferElement) : Nat :=
  elements.countP fun element => element.data.type = .nvme && stage.issues element

/-- Every run comes to an end, both processes then are done, there were as many calls of
`nvme_resp.read()` as commands, and `nvme_transfers` is empty. -/
def Answered (stage : NvmeStage) (elements : List TransferElement) (nvmeTransfers : List Nat) :
    Prop :=
  ∀ moves s, Runs.run (Dataflow.step stage) (Dataflow.start elements nvmeTransfers) moves = some s →
    moves.length ≤ 5 * elements.length ∧ (s.Blocked stage →
      s.Finished ∧ s.reads = s.commands.length ∧ s.nvmeTransfers = [])

/-! ## One move -/

namespace Dataflow

variable {stage : NvmeStage} {s s' : Dataflow}

theorem issue_cases (moved : s.issue stage = some s') :
    s.issuing = true ∧ s.issued = none ∧ ∃ element input, s.input = element :: input ∧
      (element.data.type ≠ .nvme ∧ s' = { s with input := input, issued := some element } ∨
      element.data.type = .nvme ∧ ∃ nvmeAddress nvmeTransfers,
        s.nvmeTransfers = nvmeAddress :: nvmeTransfers ∧
        s' = { s with
          input := input
          nvmeTransfers := nvmeTransfers
          commands := s.commands ++ if stage.issues element then [issueNvmeBlockTransferCommand
            nvmeAddress (u64 (nvmeDRAMBaseOffset + element.data.address))] else []
          issued := some element }) := by
  unfold issue at moved
  split at moved
  · cases moved
  · rename_i ready
    rw [not_or, Bool.not_eq_false, not_not] at ready
    refine ⟨ready.1, ready.2, ?_⟩
    split at moved
    · cases moved
    · rename_i element input front
      refine ⟨element, input, front, ?_⟩
      split at moved
      · rename_i other
        exact Or.inl ⟨other, (Option.some.inj moved).symm⟩
      · rename_i nvme
        refine Or.inr ⟨not_not.mp nvme, ?_⟩
        dsimp only at moved
        split at moved
        · cases moved
        · rename_i nvmeAddress nvmeTransfers queue
          exact ⟨nvmeAddress, nvmeTransfers, queue, (Option.some.inj moved).symm⟩

theorem forward_cases (moved : s.forward = some s') :
    ∃ element, s.issued = some element ∧ s.pendingTransfers.length < pendingDepth ∧
      s' = { s with
        issued := none
        pendingTransfers := s.pendingTransfers ++ [element]
        issuing := !element.last } := by
  unfold forward at moved
  split at moved
  · cases moved
  · rename_i element held
    split at moved
    · rename_i space
      exact ⟨element, held, space, (Option.some.inj moved).symm⟩
    · cases moved

theorem answer_cases (moved : s.answer = some s') :
    s.answered < s.commands.length ∧
      s' = { s with answered := s.answered + 1, responses := s.responses + 1 } := by
  unfold answer at moved
  split at moved
  · rename_i outstanding
    exact ⟨outstanding, (Option.some.inj moved).symm⟩
  · cases moved

theorem fetch_cases (moved : s.fetch = some s') :
    s.collecting = true ∧ s.awaiting = none ∧ ∃ element pending,
      s.pendingTransfers = element :: pending ∧
      s' = { s with
        pendingTransfers := pending
        awaiting := some element
        reads := if element.data.type = .nvme then s.reads + 1 else s.reads } := by
  unfold fetch at moved
  split at moved
  · cases moved
  · rename_i ready
    rw [not_or, Bool.not_eq_false, not_not] at ready
    refine ⟨ready.1, ready.2, ?_⟩
    split at moved
    · cases moved
    · rename_i element pending front
      exact ⟨element, pending, front, (Option.some.inj moved).symm⟩

theorem collect_cases (moved : s.collect = some s') :
    ∃ element responses, s.awaiting = some element ∧
      s.responses = responses + (if element.data.type = .nvme then 1 else 0) ∧
      s' = { s with
        responses := responses
        awaiting := none
        out := s.out ++ [element]
        collecting := !element.last } := by
  unfold collect at moved
  split at moved
  · cases moved
  · rename_i element held
    split at moved
    · rename_i nvme
      split at moved
      · cases moved
      · rename_i response
        refine ⟨element, s.responses - 1, held, ?_, (Option.some.inj moved).symm⟩
        rw [if_pos nvme]
        omega
    · rename_i other
      refine ⟨element, s.responses, held, ?_, (Option.some.inj moved).symm⟩
      rw [if_neg other, Nat.add_zero]

/-- The moves that are left at most. -/
def size (s : Dataflow) : Nat :=
  5 * s.input.length + 3 * s.issued.toList.length + 2 * s.pendingTransfers.length +
    s.awaiting.toList.length + (s.commands.length - s.answered)

theorem step_size {move : Move} (moved : s.step stage move = some s') : s'.size < s.size := by
  unfold size
  cases move with
  | issue =>
    obtain ⟨-, free, element, input, front, other | nvme⟩ := issue_cases moved
    · obtain ⟨-, rfl⟩ := other
      simp only [front, free, List.length_cons, Option.toList_some, Option.toList_none,
        List.length_nil]
      omega
    · obtain ⟨-, nvmeAddress, nvmeTransfers, -, rfl⟩ := nvme
      simp only [front, free, List.length_cons, Option.toList_some, Option.toList_none,
        List.length_nil, List.length_append]
      split <;> simp only [List.length_cons, List.length_nil] <;> omega
  | forward =>
    obtain ⟨element, held, -, rfl⟩ := forward_cases moved
    simp only [held, List.length_cons, Option.toList_some, Option.toList_none, List.length_nil,
      List.length_append]
    omega
  | answer =>
    obtain ⟨outstanding, rfl⟩ := answer_cases moved
    dsimp only
    omega
  | fetch =>
    obtain ⟨-, free, element, pending, front, rfl⟩ := fetch_cases moved
    simp only [front, free, List.length_cons, Option.toList_some, Option.toList_none,
      List.length_nil]
    omega
  | collect =>
    obtain ⟨element, responses, held, -, rfl⟩ := collect_cases moved
    simp only [held, List.length_cons, Option.toList_some, Option.toList_none, List.length_nil]
    omega

/-- The elements the second process is not done with. -/
def underWay (s : Dataflow) : List TransferElement :=
  s.awaiting.toList ++ (s.pendingTransfers ++ (s.issued.toList ++ s.input))

/-- The elements are passed on in order, and the counters count them. -/
structure Flows (stage : NvmeStage) (elements : List TransferElement) (s : Dataflow) : Prop where
  order : s.out ++ s.underWay = elements
  queued : s.nvmeTransfers.length = nvmeCount s.input
  issues : s.commands.length + issuedCount stage s.input = issuedCount stage elements
  calls : s.reads = nvmeCount (s.out ++ s.awaiting.toList)
  answers : s.responses + nvmeCount s.out = s.answered
  answered : s.answered ≤ s.commands.length
  issuing : s.issuing = true ↔ s.issued.toList ++ s.input ≠ []
  collecting : s.collecting = true ↔ s.underWay ≠ []

end Dataflow

theorem LastAtEnd.split {first rest : List TransferElement} {element : TransferElement}
    (ends : LastAtEnd (first ++ element :: rest)) : (!element.last) = true ↔ rest ≠ [] := by
  have place : (first ++ element :: rest)[first.length]? = some element := by
    rw [List.getElem?_append_right (Nat.le_refl _), Nat.sub_self]
    rfl
  have final := ends.2 first.length element place
  rw [List.length_append, List.length_cons] at final
  rw [Bool.not_eq_true', ← Bool.not_eq_true, final, ← List.length_pos_iff_ne_nil]
  omega

namespace Dataflow

section

variable {stage : NvmeStage} {s s' : Dataflow} {elements : List TransferElement}

theorem start_flows {nvmeTransfers : List Nat} (ends : LastAtEnd elements)
    (queued : nvmeTransfers.length = nvmeCount elements) :
    Flows stage elements (start elements nvmeTransfers) where
  order := rfl
  queued := queued
  issues := Nat.zero_add _
  calls := rfl
  answers := rfl
  answered := Nat.le_refl _
  issuing := ⟨fun _ => ends.1, fun _ => rfl⟩
  collecting := ⟨fun _ => ends.1, fun _ => rfl⟩

theorem nvmeCount_cons (element : TransferElement) (rest : List TransferElement) :
    nvmeCount (element :: rest) =
      nvmeCount rest + if element.data.type = .nvme then 1 else 0 := by
  simp only [nvmeCount, List.countP_cons, decide_eq_true_eq]

theorem nvmeCount_append (first rest : List TransferElement) :
    nvmeCount (first ++ rest) = nvmeCount first + nvmeCount rest := List.countP_append

theorem issuedCount_cons (element : TransferElement) (rest : List TransferElement) :
    issuedCount stage (element :: rest) = issuedCount stage rest +
      if element.data.type = .nvme ∧ stage.issues element = true then 1 else 0 := by
  simp only [issuedCount, List.countP_cons, Bool.and_eq_true, decide_eq_true_eq]

theorem Flows.issue (flows : Flows stage elements s) (moved : s.issue stage = some s') :
    Flows stage elements s' := by
  obtain ⟨order, queued, issues, calls, answers, answered, issuing, collecting⟩ := flows
  obtain ⟨running, free, element, input, front, other | nvme⟩ := issue_cases moved
  · obtain ⟨other, rfl⟩ := other
    unfold underWay at *
    rw [front, nvmeCount_cons, if_neg other] at queued
    rw [front, issuedCount_cons, if_neg (fun both => other both.1)] at issues
    rw [front, free] at order collecting
    exact ⟨order, queued, issues, calls, answers, answered, by simp [running], collecting⟩
  · obtain ⟨nvme, nvmeAddress, nvmeTransfers, queue, rfl⟩ := nvme
    unfold underWay at *
    rw [front, nvmeCount_cons, if_pos nvme, queue, List.length_cons] at queued
    rw [front, issuedCount_cons] at issues
    rw [front, free] at order collecting
    refine ⟨order, by dsimp only; omega, ?_, calls, answers, ?_, by simp [running], collecting⟩
    · dsimp only
      rw [List.length_append, ← issues]
      split
      · rename_i some
        rw [if_pos ⟨nvme, some⟩, List.length_singleton]
        omega
      · rename_i no
        rw [if_neg (fun both => no both.2), List.length_nil]
        omega
    · dsimp only
      rw [List.length_append]
      omega

theorem Flows.forward (ends : LastAtEnd elements) (flows : Flows stage elements s)
    (moved : s.forward = some s') : Flows stage elements s' := by
  obtain ⟨order, queued, issues, calls, answers, answered, issuing, collecting⟩ := flows
  obtain ⟨element, held, -, rfl⟩ := forward_cases moved
  unfold underWay at *
  rw [held] at order collecting
  have regroup : s.pendingTransfers ++ ((some element).toList ++ s.input) =
      s.pendingTransfers ++ [element] ++ (none.toList ++ s.input) := by
    rw [List.append_assoc]
    rfl
  have place : s.out ++ s.awaiting.toList ++ s.pendingTransfers ++ element :: s.input =
      elements := by
    rw [← order, List.append_assoc, List.append_assoc]
    rfl
  rw [← place] at ends
  rw [regroup] at order collecting
  exact ⟨order, queued, issues, calls, answers, answered, ends.split, collecting⟩

theorem Flows.answer (flows : Flows stage elements s) (moved : s.answer = some s') :
    Flows stage elements s' := by
  obtain ⟨order, queued, issues, calls, answers, answered, issuing, collecting⟩ := flows
  obtain ⟨outstanding, rfl⟩ := answer_cases moved
  refine ⟨order, queued, issues, calls, ?_, outstanding, issuing, collecting⟩
  dsimp only
  omega

theorem Flows.fetch (flows : Flows stage elements s) (moved : s.fetch = some s') :
    Flows stage elements s' := by
  obtain ⟨order, queued, issues, calls, answers, answered, issuing, collecting⟩ := flows
  obtain ⟨-, free, element, pending, front, rfl⟩ := fetch_cases moved
  unfold underWay at *
  rw [front, free] at order collecting
  refine ⟨order, queued, issues, ?_, answers, answered, issuing, collecting⟩
  rw [free, Option.toList_none, List.append_nil] at calls
  dsimp only
  rw [Option.toList_some, nvmeCount_append, nvmeCount_cons, ← calls]
  split <;> rfl

theorem Flows.collect (ends : LastAtEnd elements) (flows : Flows stage elements s)
    (moved : s.collect = some s') : Flows stage elements s' := by
  obtain ⟨order, queued, issues, calls, answers, answered, issuing, collecting⟩ := flows
  obtain ⟨element, responses, held, response, rfl⟩ := collect_cases moved
  unfold underWay at *
  rw [held] at order calls
  have regroup : s.out ++ ((some element).toList ++
      (s.pendingTransfers ++ (s.issued.toList ++ s.input))) = s.out ++ [element] ++
        (none.toList ++ (s.pendingTransfers ++ (s.issued.toList ++ s.input))) := by
    rw [List.append_assoc]
    rfl
  rw [← order] at ends
  rw [regroup] at order
  refine ⟨order, queued, issues, ?_, ?_, answered, issuing, ends.split⟩
  · rw [calls]
    simp only [Option.toList_some, Option.toList_none, List.append_nil]
  · dsimp only
    rw [nvmeCount_append, nvmeCount_cons, ← answers, response]
    have none : nvmeCount [] = 0 := rfl
    omega

/-- What one move preserves. -/
theorem Flows.step (ends : LastAtEnd elements) (flows : Flows stage elements s) {move : Move}
    (moved : s.step stage move = some s') : Flows stage elements s' := by
  cases move with
  | issue => exact flows.issue moved
  | forward => exact flows.forward ends moved
  | answer => exact flows.answer moved
  | fetch => exact flows.fetch moved
  | collect => exact flows.collect ends moved

theorem Flows.run (ends : LastAtEnd elements) {nvmeTransfers : List Nat}
    (queued : nvmeTransfers.length = nvmeCount elements) {moves : List Move}
    (reached : Runs.run (Dataflow.step stage) (start elements nvmeTransfers) moves = some s) :
    Flows stage elements s :=
  Runs.inv_of_steps (fun flows moved => flows.step ends moved) (start_flows ends queued) reached

/-! ## The end of a run -/

theorem Flows.finished (flows : Flows stage elements s) (done : s.collecting = false) :
    s.Finished ∧ s.out = elements ∧ s.input = [] ∧ s.awaiting = none := by
  have empty : s.underWay = [] := by
    by_contra more
    rw [flows.collecting.mpr more] at done
    cases done
  obtain ⟨awaiting, rest⟩ := List.append_eq_nil_iff.mp empty
  obtain ⟨-, rest⟩ := List.append_eq_nil_iff.mp rest
  have order := flows.order
  rw [empty, List.append_nil] at order
  refine ⟨⟨?_, done⟩, order, (List.append_eq_nil_iff.mp rest).2, Option.toList_eq_nil_iff.mp awaiting⟩
  rw [← Bool.not_eq_true, flows.issuing, not_not]
  exact rest

/-- At the end the calls are those of the elements of type NVMe, and the commands those of
the elements that have one. -/
theorem Flows.counts (flows : Flows stage elements s) (done : s.collecting = false) :
    s.reads = nvmeCount elements ∧ s.commands.length = issuedCount stage elements ∧
      s.nvmeTransfers = [] := by
  obtain ⟨-, out, input, awaiting⟩ := flows.finished done
  have calls := flows.calls
  have issues := flows.issues
  have queued := flows.queued
  rw [out, awaiting, Option.toList_none, List.append_nil] at calls
  rw [input] at issues queued
  exact ⟨calls, issues, List.eq_nil_of_length_eq_zero queued⟩

theorem issuedCount_le (elements : List TransferElement) :
    issuedCount stage elements ≤ nvmeCount elements := by
  apply List.countP_mono_left
  intro element _ both
  exact (Bool.and_eq_true_iff.mp both).1

/-- As many commands as elements of type NVMe means that each of them has one. -/
theorem issuedCount_eq_iff : issuedCount stage elements = nvmeCount elements ↔
    ∀ element ∈ elements, element.data.type = .nvme → stage.issues element = true := by
  induction elements with
  | nil => exact ⟨fun _ _ mem => absurd mem List.not_mem_nil, fun _ => rfl⟩
  | cons element rest ih =>
    have less := @issuedCount_le stage rest
    rw [issuedCount_cons, nvmeCount_cons, List.forall_mem_cons, ← ih]
    by_cases nvme : element.data.type = .nvme
    · by_cases issues : stage.issues element = true
      · simp only [nvme, issues, and_self, if_true, forall_const, true_and]
        omega
      · simp only [nvme, issues, and_false, Bool.false_eq_true, if_true, if_false, forall_const,
          false_and, iff_false]
        omega
    · simp only [nvme, false_and, if_false, IsEmpty.forall_iff, true_and]
      omega

/-- A response that is awaited comes, if every element of type NVMe has a command. -/
theorem Flows.outstanding (flows : Flows stage elements s)
    (all : ∀ element ∈ elements, element.data.type = .nvme → stage.issues element = true)
    {element : TransferElement} (held : s.awaiting = some element)
    (nvme : element.data.type = .nvme) (empty : s.responses = 0) :
    s.answered < s.commands.length := by
  have issues := flows.issues
  have answers := flows.answers
  have order := congrArg nvmeCount flows.order
  have later : issuedCount stage s.input ≤ nvmeCount s.input := issuedCount_le _
  unfold underWay at order
  rw [held, Option.toList_some] at order
  rw [issuedCount_eq_iff.mpr all] at issues
  simp only [nvmeCount_append, nvmeCount_cons, if_pos nvme] at order
  omega

/-- If every element of type NVMe has a command, the processes go on until they are done. -/
theorem Flows.collecting_of_blocked (flows : Flows stage elements s)
    (all : ∀ element ∈ elements, element.data.type = .nvme → stage.issues element = true)
    (blocked : s.Blocked stage) : s.collecting = false := by
  by_contra running
  rw [Bool.not_eq_false] at running
  rcases awaiting : s.awaiting with _ | element
  · -- the second process waits for an element
    have noElement : s.pendingTransfers = [] := by
      by_contra more
      obtain ⟨element, pending, front⟩ := List.exists_cons_of_ne_nil more
      have stuck := blocked .fetch
      simp [Dataflow.step, Dataflow.fetch, running, awaiting, front] at stuck
    rcases issued : s.issued with _ | element
    · have more := flows.collecting.mp running
      unfold underWay at more
      rw [awaiting, noElement, issued] at more
      obtain ⟨element, input, front⟩ := List.exists_cons_of_ne_nil more
      have issuing : s.issuing = true := by
        rw [flows.issuing, issued]
        exact more
      have input' : s.input = element :: input := front
      have queued := flows.queued
      have stuck := blocked .issue
      rw [input', nvmeCount_cons] at queued
      by_cases nvme : element.data.type = .nvme
      · rw [if_pos nvme] at queued
        obtain ⟨nvmeAddress, queue, nvmeTransfers⟩ := List.exists_cons_of_length_eq_add_one queued
        simp [Dataflow.step, Dataflow.issue, issuing, issued, input', nvme, nvmeTransfers] at stuck
      · simp [Dataflow.step, Dataflow.issue, issuing, issued, input', nvme] at stuck
    · have stuck := blocked .forward
      simp [Dataflow.step, Dataflow.forward, issued, noElement, pendingDepth] at stuck
  · -- it waits for a response
    have stuck := blocked .collect
    by_cases nvme : element.data.type = .nvme
    · have empty : s.responses = 0 := by
        by_contra response
        simp [Dataflow.step, Dataflow.collect, awaiting, nvme, response] at stuck
      have stuck := blocked .answer
      have outstanding := flows.outstanding all awaiting nvme empty
      simp [Dataflow.step, Dataflow.answer, outstanding] at stuck
    · simp [Dataflow.step, Dataflow.collect, awaiting, nvme] at stuck

end

end Dataflow

/-! ## The commands of `write_nvme_data` -/

namespace Dataflow

variable {s s' : Dataflow} {elements : List TransferElement} {nvmeTransfers : List Nat}

/-- What `writeNvmeData` has still to do. -/
def remaining (s : Dataflow) : Option (List NvmeCommand × List Nat) :=
  if s.issuing = false ∨ s.issued.any TransferElement.last then some ([], s.nvmeTransfers)
  else writeNvmeData s.input s.nvmeTransfers

/-- Together with the commands issued so far, `remaining` is the result of `writeNvmeData`. -/
def Continues (result : Option (List NvmeCommand × List Nat)) (s : Dataflow) : Prop :=
  result = s.remaining.map fun rest => (s.commands ++ rest.1, rest.2)

theorem Continues.issue {result : Option (List NvmeCommand × List Nat)}
    (continues : Continues result s) (moved : s.issue .write = some s') : Continues result s' := by
  unfold Continues at continues ⊢
  rw [continues]
  obtain ⟨running, free, element, input, front, other | nvme⟩ := issue_cases moved
  · obtain ⟨other, rfl⟩ := other
    cases last : element.last <;>
      simp [remaining, running, free, front, writeNvmeData, other, last]
  · obtain ⟨nvme, nvmeAddress, nvmeTransfers, queue, rfl⟩ := nvme
    cases last : element.last <;>
      simp [remaining, running, free, front, writeNvmeData, nvme, queue, last, NvmeStage.issues,
        Function.comp_def]

theorem Continues.forward {result : Option (List NvmeCommand × List Nat)}
    (running : s.issuing = true) (continues : Continues result s) (moved : s.forward = some s') :
    Continues result s' := by
  unfold Continues at continues ⊢
  rw [continues]
  obtain ⟨element, held, -, rfl⟩ := forward_cases moved
  cases last : element.last <;> simp [remaining, running, held, last]

/-- The first process issues the commands of `writeNvmeData`. -/
theorem commands_eq_writeNvmeData (ends : LastAtEnd elements)
    (queued : nvmeTransfers.length = nvmeCount elements) {moves : List Move}
    (reached : Runs.run (Dataflow.step .write) (start elements nvmeTransfers) moves = some s)
    (done : s.issuing = false) :
    writeNvmeData elements nvmeTransfers = some (s.commands, s.nvmeTransfers) := by
  have both : Flows .write elements s ∧
      Continues (writeNvmeData elements nvmeTransfers) s := by
    refine @Runs.inv_of_steps _ _ _ (fun s => Flows .write elements s ∧
      Continues (writeNvmeData elements nvmeTransfers) s) ?_ _ _ ⟨start_flows ends queued, ?_⟩ _
        reached
    · rintro s move s' ⟨flows, continues⟩ moved
      refine ⟨flows.step ends moved, ?_⟩
      cases move with
      | issue => exact continues.issue moved
      | forward =>
        obtain ⟨element, held, -, -⟩ := forward_cases moved
        have running : s.issuing = true := by
          rw [flows.issuing, held]
          exact List.cons_ne_nil _ _
        exact continues.forward running moved
      | answer =>
        obtain ⟨-, rfl⟩ := answer_cases moved
        exact continues
      | fetch =>
        obtain ⟨-, -, element, pending, -, rfl⟩ := fetch_cases moved
        exact continues
      | collect =>
        obtain ⟨element, responses, -, -, rfl⟩ := collect_cases moved
        exact continues
    · exact Option.map_id'.symm
  have continues := both.2
  unfold Continues remaining at continues
  rw [continues, if_pos (Or.inl done), Option.map_some, List.append_nil]

end Dataflow

/-! ## Which lists of elements come to an end -/

/-- Every response awaited belongs to a command exactly if no element of type NVMe that
`write_nvme_data` gets has size zero. -/
theorem answered_iff_no_empty_write {stage : NvmeStage} {elements : List TransferElement}
    (ends : LastAtEnd elements) {nvmeTransfers : List Nat}
    (queued : nvmeTransfers.length = nvmeCount elements) :
    Answered stage elements nvmeTransfers ↔ (stage = .write →
      ∀ element ∈ elements, element.data.type = .nvme → 0 < element.data.size) := by
  have condition : (stage = .write →
      ∀ element ∈ elements, element.data.type = .nvme → 0 < element.data.size) ↔
      ∀ element ∈ elements, element.data.type = .nvme → stage.issues element = true := by
    cases stage with
    | load => exact ⟨fun _ _ _ _ => rfl, fun _ load => NvmeStage.noConfusion load⟩
    | write =>
      simp only [forall_const, NvmeStage.issues, decide_eq_true_eq]
  rw [condition]
  constructor
  · intro answered
    obtain ⟨moves, s, -, reached, -, blocked⟩ :=
      @Runs.exists_blocked_run _ _ (Dataflow.step stage) (fun _ _ => True) (fun _ => True)
        Dataflow.size (fun _ _ moved => ⟨trivial, Dataflow.step_size moved⟩)
        (Dataflow.start elements nvmeTransfers) trivial
    obtain ⟨-, final⟩ := answered moves s reached
    obtain ⟨finished, same, -⟩ := final fun move => blocked move trivial
    have flows := Dataflow.Flows.run ends queued reached
    obtain ⟨reads, commands, -⟩ := flows.counts finished.2
    apply Dataflow.issuedCount_eq_iff.mp
    rw [← commands, ← reads, same]
  · intro all moves s reached
    have flows := Dataflow.Flows.run ends queued reached
    constructor
    · have bound := Runs.length_of_run Dataflow.size (fun moved => Dataflow.step_size moved) reached
      have initially : (Dataflow.start elements nvmeTransfers).size = 5 * elements.length := rfl
      omega
    · intro blocked
      have done := flows.collecting_of_blocked all blocked
      obtain ⟨reads, commands, queue⟩ := flows.counts done
      refine ⟨(flows.finished done).1, ?_, queue⟩
      rw [reads, commands, Dataflow.issuedCount_eq_iff.mpr all]

/-- A write of two storage blocks. -/
def twoBlocks : List TransferElement :=
  [⟨⟨0, storageBlockSize, .nvme⟩, false⟩, ⟨⟨storageBlockSize, storageBlockSize, .nvme⟩, true⟩]

/-- The nvme_transfers of the two blocks. -/
def twoAddresses : List Nat := [0, storageBlockSize]

theorem LastAtEnd.pair {first second : TransferElement} (more : first.last = false)
    (final : second.last = true) : LastAtEnd [first, second] := by
  refine ⟨List.cons_ne_nil _ _, ?_⟩
  rintro (_ | _ | k) element present
  · cases present
    rw [more, List.length_cons, List.length_singleton]
    exact ⟨fun no => Bool.noConfusion no, fun no => by omega⟩
  · cases present
    exact ⟨fun _ => rfl, fun _ => final⟩
  · cases present

/-- With the data of both blocks, the write comes to an end. -/
theorem answered_iff_no_empty_write_twoBlocks : Answered .write twoBlocks twoAddresses := by
  apply (answered_iff_no_empty_write (LastAtEnd.pair rfl rfl) rfl).mpr
  intro _ element mem _
  rcases List.mem_pair.mp mem with rfl | rfl
  · exact Nat.lt_of_sub_eq_succ rfl
  · exact Nat.lt_of_sub_eq_succ rfl

/-- An operator that shrinks the data to less than a block ends the packet early. -/
def shrunkBlocks : List TransferElement :=
  [⟨⟨0, storageBlockSize, .nvme⟩, false⟩, ⟨⟨storageBlockSize, 0, .nvme⟩, true⟩]

/-- The second process has fetched the second element and waits. -/
def waiting : Dataflow where
  input := []
  nvmeTransfers := []
  commands := [issueNvmeBlockTransferCommand 0 nvmeDRAMBaseOffset]
  issuing := false
  issued := none
  pendingTransfers := []
  answered := 1
  responses := 0
  collecting := true
  awaiting := some ⟨⟨storageBlockSize, 0, .nvme⟩, true⟩
  reads := 2
  out := [⟨⟨0, storageBlockSize, .nvme⟩, false⟩]

/-- After an early end of the packet `write_nvme_data` waits for ever. -/
theorem shrunkBlocks_not_answered :
    (transferFromStream twoBlocks [⟨true, 64⟩] false).map FromStream.out = some shrunkBlocks ∧
      LastAtEnd shrunkBlocks ∧ twoAddresses.length = nvmeCount shrunkBlocks ∧
      ¬ Answered .write shrunkBlocks twoAddresses := by
  refine ⟨rfl, LastAtEnd.pair rfl rfl, rfl, ?_⟩
  intro answered
  have reached : Runs.run (Dataflow.step .write) (Dataflow.start shrunkBlocks twoAddresses)
      [.issue, .forward, .issue, .forward, .answer, .fetch, .collect, .fetch] = some waiting := rfl
  have blocked : waiting.Blocked .write := by
    intro move
    cases move <;> rfl
  obtain ⟨-, same, -⟩ := (answered _ _ reached).2 blocked
  cases same

end MetalFs.Fpga
