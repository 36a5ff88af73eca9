import MetalFs.Fpga.Membus
import MetalFs.Fpga.NvmeData
import MetalFs.Lib.Fifo
import MetalFs.Lib.Runs

/-!
# The two processes of `transfer_from_stream`

In the dataflow region of `transfer_from_stream` one process issues the DataMover commands and
another one collects the statuses.  They exchange the transfers and, the other way round, a token
that allows or denies the next command, through streams of any positive depth; the DataMover answers
every command with one status.  A step is one operation of one of the three on a stream, and a
schedule may put the steps in any order.

All that a reachable state holds follows from how far the three have come (`Position.state`), so
that every schedule ends in the same state.
-/

namespace MetalFs.Fpga

open Fifo

/-- The fields of a status word. -/
def ibttStatus (word : Nat) : DatamoverIbttStatus := ⟨word.testBit 31, bits word 30 8⟩

/-- The command for a transfer. -/
def transferCommand (currentTransfer : TransferElement) : DatamoverCommand :=
  issueBlockTransferCommand currentTransfer.data.size currentTransfer.last
    (datamoverAddress currentTransfer.data)

/-- `currentTransfer.data.size = 0`. -/
def zeroed (currentTransfer : TransferElement) : TransferElement :=
  { currentTransfer with data := { currentTransfer.data with size := 0 } }

namespace TransferFromStream

/-- What the first process does next. -/
inductive Issuer where
  | readIn
  | readToken (currentTransfer : TransferElement)
  | issue (currentTransfer : TransferElement)
  | push (currentTransfer : TransferElement)
  | done
deriving DecidableEq

/-- What the second process does next. -/
inductive Collector where
  | sendToken
  | readPending
  | readStatus (currentTransfer : TransferElement)
  | write (currentTransfer : TransferElement)
  | done
deriving DecidableEq

/-- The processes, their variables and the streams; `commands` are all that were written to
`dm_cmd`, of which the DataMover has answered some, and `consumed` counts the statuses that were
read. -/
structure Dataflow where
  issuer : Issuer
  collector : Collector
  input : List TransferElement
  pendingTransfers : List TransferElement
  streamIsTerminated : List Bool
  commands : List DatamoverCommand
  answered : Nat
  dmSts : List Nat
  consumed : Nat
  out : List TransferElement
  endOfPacket : Bool
  tmpSize : Nat
  size : Option Nat
deriving DecidableEq

/-- The stream depths. -/
structure Depths where
  pendingTransfers : Nat
  streamIsTerminated : Nat

/-- The first process. -/
def issuerStep (depths : Depths) (s : Dataflow) : Option Dataflow :=
  match s.issuer with
  | .readIn =>
    match s.input with
    | [] => none
    | currentTransfer :: input => some { s with input, issuer := .readToken currentTransfer }
  | .readToken currentTransfer =>
    match s.streamIsTerminated with
    | [] => none
    | terminated :: streamIsTerminated =>
      some { s with
        streamIsTerminated
        issuer := if terminated then .push currentTransfer else .issue currentTransfer }
  | .issue currentTransfer =>
    some { s with
      commands := s.commands ++ [transferCommand currentTransfer]
      issuer := .push currentTransfer }
  | .push currentTransfer =>
    if s.pendingTransfers.length < depths.pendingTransfers then
      some { s with
        pendingTransfers := s.pendingTransfers ++ [currentTransfer]
        issuer := if currentTransfer.last then .done else .readIn }
    else none
  | .done => none

/-- The second process. -/
def collectorStep (depths : Depths) (s : Dataflow) : Option Dataflow :=
  match s.collector with
  | .sendToken =>
    if s.streamIsTerminated.length < depths.streamIsTerminated then
      some { s with
        streamIsTerminated := s.streamIsTerminated ++ [s.endOfPacket]
        collector := .readPending }
    else none
  | .readPending =>
    match s.pendingTransfers with
    | [] => none
    | currentTransfer :: pendingTransfers =>
      some { s with
        pendingTransfers
        collector := if s.endOfPacket then .write (zeroed currentTransfer)
          else .readStatus currentTransfer }
  | .readStatus currentTransfer =>
    match s.dmSts with
    | [] => none
    | word :: dmSts =>
      some { s with
        dmSts
        consumed := s.consumed + 1
        tmpSize := u64 (s.tmpSize + (ibttStatus word).numBytesTransferred)
        endOfPacket := (ibttStatus word).endOfPacket
        collector := .write currentTransfer }
  | .write currentTransfer =>
    let s := { s with out := s.out ++ [currentTransfer] }
    if currentTransfer.last then some { s with collector := .done, size := some s.tmpSize }
    else some { s with collector := .sendToken }
  | .done => none

/-- The DataMover answers the next command with the next of the status words. -/
def datamoverStep (words : Nat → Nat) (s : Dataflow) : Option Dataflow :=
  if s.answered < s.commands.length then
    some { s with dmSts := s.dmSts ++ [words s.answered], answered := s.answered + 1 }
  else none

/-- Who takes a step. -/
inductive Actor where
  | issuer
  | collector
  | datamover
deriving DecidableEq

/-- A step of the dataflow region. -/
def step (depths : Depths) (words : Nat → Nat) (s : Dataflow) : Actor → Option Dataflow
  | .issuer => issuerStep depths s
  | .collector => collectorStep depths s
  | .datamover => datamoverStep words s

/-- The region is entered. -/
def start (transfers : List TransferElement) : Dataflow where
  issuer := .readIn
  collector := .sendToken
  input := transfers
  pendingTransfers := []
  streamIsTerminated := []
  commands := []
  answered := 0
  dmSts := []
  consumed := 0
  out := []
  endOfPacket := false
  tmpSize := 0
  size := none

/-- Both processes have returned. -/
def Dataflow.Finished (s : Dataflow) : Prop := s.issuer = .done ∧ s.collector = .done

/-! ## How far the processes have come -/

/-- The first process without its variable. -/
inductive IssuerStage where
  | readIn
  | readToken
  | issue
  | push
  | done
deriving DecidableEq

/-- The second process without its variable. -/
inductive CollectorStage where
  | sendToken
  | readPending
  | readStatus
  | write
  | done
deriving DecidableEq

namespace IssuerStage

/-- The transfers, the tokens and the commands of the round under way. -/
def taken : IssuerStage → Nat
  | readToken | issue | push => 1
  | readIn | done => 0

@[inherit_doc taken]
def asked : IssuerStage → Nat
  | issue | push => 1
  | readIn | readToken | done => 0

@[inherit_doc taken]
def issued : IssuerStage → Nat
  | push => 1
  | readIn | readToken | issue | done => 0

/-- The steps of the round that are done. -/
def index : IssuerStage → Nat
  | readIn | done => 0
  | readToken => 1
  | issue => 2
  | push => 3

end IssuerStage

namespace CollectorStage

/-- The tokens, the transfers and the statuses of the round under way. -/
def sent : CollectorStage → Nat
  | readPending | readStatus | write => 1
  | sendToken | done => 0

@[inherit_doc sent]
def popped : CollectorStage → Nat
  | readStatus | write => 1
  | sendToken | readPending | done => 0

@[inherit_doc sent]
def read : CollectorStage → Nat
  | write => 1
  | sendToken | readPending | readStatus | done => 0

/-- The steps of the round that are done. -/
def index : CollectorStage → Nat
  | sendToken | done => 0
  | readPending => 1
  | readStatus => 2
  | write => 3

end CollectorStage

/-- The rounds the two processes have finished, where they are in the next one, and the commands
that are answered. -/
structure Position where
  issuerRounds : Nat
  issuer : IssuerStage
  collectorRounds : Nat
  collector : CollectorStage
  answered : Nat

section Positions

variable (transfer : Nat → TransferElement) (n : Nat) (words : Nat → Nat) (m : Nat)

/-- `endOfPacket` after `k` rounds. -/
def terminated (k : Nat) : Bool := ∃ j < k, (ibttStatus (words j)).endOfPacket = true

/-- What is written to `out` in round `k`. -/
def forwarded (k : Nat) : TransferElement :=
  if terminated words k then zeroed (transfer k) else transfer k

/-- `tmpSize` after `k` statuses. -/
def bytesReceived (k : Nat) : Nat :=
  u64 ((List.range k).map fun j => (ibttStatus (words j)).numBytesTransferred).sum

/-- The first process at a stage of a round. -/
def issuerAt (round : Nat) : IssuerStage → Issuer
  | .readIn => .readIn
  | .readToken => .readToken (transfer round)
  | .issue => .issue (transfer round)
  | .push => .push (transfer round)
  | .done => .done

/-- The second process at a stage of a round. -/
def collectorAt (round : Nat) : CollectorStage → Collector
  | .sendToken => .sendToken
  | .readPending => .readPending
  | .readStatus => .readStatus (transfer round)
  | .write => .write (forwarded transfer words round)
  | .done => .done

namespace Position

variable (p : Position)

/-- The commands that were written. -/
def issued : Nat := min (p.issuerRounds + p.issuer.issued) m

/-- The statuses that were read. -/
def consumed : Nat := min (p.collectorRounds + p.collector.read) m

/-- The state of a position, if the first `m` of `n` transfers get a command. -/
def state : Dataflow where
  issuer := issuerAt transfer p.issuerRounds p.issuer
  collector := collectorAt transfer words p.collectorRounds p.collector
  input := between transfer (p.issuerRounds + p.issuer.taken) n
  pendingTransfers := between transfer (p.collectorRounds + p.collector.popped) p.issuerRounds
  streamIsTerminated := between (terminated words) (p.issuerRounds + p.issuer.asked)
    (p.collectorRounds + p.collector.sent)
  commands := between (fun k => transferCommand (transfer k)) 0 (p.issued m)
  answered := p.answered
  dmSts := between words (p.consumed m) p.answered
  consumed := p.consumed m
  out := between (forwarded transfer words) 0 p.collectorRounds
  endOfPacket := terminated words (p.collectorRounds + p.collector.read)
  tmpSize := bytesReceived words (p.consumed m)
  size := if p.collector = .done then some (bytesReceived words (p.consumed m)) else none

/-- The positions that can be reached. -/
structure Ok : Prop where
  tokens : p.issuerRounds + p.issuer.asked ≤ p.collectorRounds + p.collector.sent
  pending : p.collectorRounds + p.collector.popped ≤ p.issuerRounds
  issuerLe : p.issuerRounds ≤ n
  issuerDone : p.issuer = .done ↔ p.issuerRounds = n
  collectorLe : p.collectorRounds ≤ n
  collectorDone : p.collector = .done ↔ p.collectorRounds = n
  allowed : p.issuer = .issue → terminated words p.issuerRounds = false
  waiting : p.collector = .readStatus → terminated words p.collectorRounds = false
  known : p.consumed m ≤ p.answered
  asked : p.answered ≤ p.issued m

/-- The steps that are left. -/
def rank : Nat :=
  (4 * n - (4 * p.issuerRounds + p.issuer.index)) +
    (4 * n - (4 * p.collectorRounds + p.collector.index)) + (n - p.answered)

end Position

/-- Nothing has been done. -/
def origin : Position := ⟨0, .readIn, 0, .sendToken, 0⟩

/-- The first `m` of the `n` transfers are those whose round begins before the end of the
packet. -/
structure EndsAt : Prop where
  le : m ≤ n
  terminated_iff : ∀ k < n, terminated words k = true ↔ m ≤ k

/-- The last of the `n` transfers, and no other one, is marked. -/
def LastAt : Prop := ∀ k < n, (transfer k).last = true ↔ k + 1 = n

end Positions

/-! ## Steps of a position -/

section Steps

variable {transfer : Nat → TransferElement} {n : Nat} {words : Nat → Nat} {m : Nat}
  {depths : Depths} {s' : Dataflow}

theorem terminated_succ (k : Nat) : terminated words (k + 1) =
    (terminated words k || (ibttStatus (words k)).endOfPacket) := by
  unfold terminated
  rw [Bool.eq_iff_iff]
  simp only [Bool.or_eq_true, decide_eq_true_eq]
  constructor
  · intro found
    rcases found with ⟨j, below, ends⟩
    rcases Nat.lt_succ_iff_lt_or_eq.mp below with earlier | here
    · exact Or.inl ⟨j, earlier, ends⟩
    · rw [here] at ends
      exact Or.inr ends
  · intro found
    rcases found with ⟨j, below, ends⟩ | ends
    · exact ⟨j, Nat.lt_succ_of_lt below, ends⟩
    · exact ⟨k, Nat.lt_succ_self k, ends⟩

theorem bytesReceived_succ (k : Nat) : bytesReceived words (k + 1) =
    u64 (bytesReceived words k + (ibttStatus (words k)).numBytesTransferred) := by
  unfold bytesReceived u64
  rw [List.range_succ, List.map_append, List.sum_append, Nat.mod_add_mod]
  simp

/-- What a step of one of the processes comes to. -/
def Advances (transfer : Nat → TransferElement) (n : Nat) (words : Nat → Nat) (m : Nat)
    (p : Position) (s' : Dataflow) : Prop :=
  ∃ p' : Position, p'.Ok n words m ∧ s' = p'.state transfer n words m ∧
    p'.rank n < p.rank n

/-- The first process is in one of its rounds until it has finished all of them. -/
theorem Position.Ok.issuer_lt {p : Position} (ok : p.Ok n words m) (unfinished : p.issuer ≠ .done) :
    p.issuerRounds < n :=
  Nat.lt_of_le_of_ne ok.issuerLe fun whole => unfinished (ok.issuerDone.mpr whole)

@[inherit_doc Position.Ok.issuer_lt]
theorem Position.Ok.collector_lt {p : Position} (ok : p.Ok n words m)
    (unfinished : p.collector ≠ .done) : p.collectorRounds < n :=
  Nat.lt_of_le_of_ne ok.collectorLe fun whole => unfinished (ok.collectorDone.mpr whole)

theorem IssuerStage.index_le (stage : IssuerStage) : stage.index ≤ 3 := by
  cases stage <;> decide

theorem CollectorStage.index_le (stage : CollectorStage) : stage.index ≤ 3 := by
  cases stage <;> decide

section Stages

variable {a b answered : Nat} {stage next : IssuerStage} {collector collector' : CollectorStage}

/-- The first process goes on within its round. -/
theorem Advances.issuerStage (ok : (⟨a, stage, b, collector, answered⟩ : Position).Ok n words m)
    (next : IssuerStage) (unfinished : stage ≠ .done) (going : next ≠ .done)
    (later : stage.index < next.index) (tokens : a + next.asked ≤ b + collector.sent)
    (allowed : next = .issue → terminated words a = false) (issued : stage.issued ≤ next.issued)
    (same : s' = (⟨a, next, b, collector, answered⟩ : Position).state transfer n words m) :
    Advances transfer n words m ⟨a, stage, b, collector, answered⟩ s' := by
  have below : a < n := ok.issuer_lt unfinished
  refine ⟨⟨a, next, b, collector, answered⟩, ?_, same, ?_⟩
  · refine ⟨tokens, ok.pending, ok.issuerLe, iff_of_false going (Nat.ne_of_lt below),
      ok.collectorLe, ok.collectorDone, allowed, ok.waiting, ok.known, ?_⟩
    have asked := ok.asked
    simp only [Position.issued] at asked ⊢
    omega
  · have last := next.index_le
    simp only [Position.rank]
    omega

/-- The first process ends its round. -/
theorem Advances.issuerRound (ok : (⟨a, .push, b, collector, answered⟩ : Position).Ok n words m)
    (fresh : next = .readIn ∨ next = .done) (final : next = .done ↔ a + 1 = n)
    (same : s' = (⟨a + 1, next, b, collector, answered⟩ : Position).state transfer n words m) :
    Advances transfer n words m ⟨a, .push, b, collector, answered⟩ s' := by
  have below : a < n := ok.issuer_lt IssuerStage.noConfusion
  have start : next.asked = 0 ∧ next.issued = 0 ∧ next ≠ .issue := by
    rcases fresh with rfl | rfl <;> decide
  obtain ⟨noToken, noCommand, notIssue⟩ := start
  refine ⟨⟨a + 1, next, b, collector, answered⟩, ?_, same, ?_⟩
  · refine ⟨?_, Nat.le_succ_of_le ok.pending, below, final, ok.collectorLe, ok.collectorDone,
      fun isIssue => absurd isIssue notIssue, ok.waiting, ok.known, ?_⟩
    · dsimp only
      rw [noToken]
      exact ok.tokens
    · rw [Position.issued, noCommand]
      exact ok.asked
  · simp only [Position.rank, IssuerStage.index]
    omega

/-- The second process goes on within its round. -/
theorem Advances.collectorStage (ok : (⟨a, stage, b, collector, answered⟩ : Position).Ok n words m)
    (collector' : CollectorStage) (unfinished : collector ≠ .done) (going : collector' ≠ .done)
    (later : collector.index < collector'.index) (sent : collector.sent ≤ collector'.sent)
    (pending : b + collector'.popped ≤ a)
    (waiting : collector' = .readStatus → terminated words b = false)
    (known : min (b + collector'.read) m ≤ answered)
    (same : s' = (⟨a, stage, b, collector', answered⟩ : Position).state transfer n words m) :
    Advances transfer n words m ⟨a, stage, b, collector, answered⟩ s' := by
  have below : b < n := ok.collector_lt unfinished
  refine ⟨⟨a, stage, b, collector', answered⟩, ?_, same, ?_⟩
  · exact ⟨Nat.le_trans ok.tokens (Nat.add_le_add_left sent b), pending, ok.issuerLe, ok.issuerDone,
      ok.collectorLe, iff_of_false going (Nat.ne_of_lt below), ok.allowed, waiting, known, ok.asked⟩
  · have last := collector'.index_le
    simp only [Position.rank]
    omega

/-- The second process ends its round. -/
theorem Advances.collectorRound (ok : (⟨a, stage, b, .write, answered⟩ : Position).Ok n words m)
    (fresh : collector' = .sendToken ∨ collector' = .done) (final : collector' = .done ↔ b + 1 = n)
    (same : s' = (⟨a, stage, b + 1, collector', answered⟩ : Position).state transfer n words m) :
    Advances transfer n words m ⟨a, stage, b, .write, answered⟩ s' := by
  have below : b < n := ok.collector_lt CollectorStage.noConfusion
  have start : collector'.sent = 0 ∧ collector'.popped = 0 ∧ collector'.read = 0 ∧
      collector' ≠ .readStatus := by
    rcases fresh with rfl | rfl <;> decide
  obtain ⟨noToken, noTransfer, noStatus, notReading⟩ := start
  refine ⟨⟨a, stage, b + 1, collector', answered⟩, ?_, same, ?_⟩
  · refine ⟨?_, ?_, ok.issuerLe, ok.issuerDone, below, final, ok.allowed,
      fun isReading => absurd isReading notReading, ?_, ok.asked⟩
    · dsimp only
      rw [noToken]
      exact ok.tokens
    · dsimp only
      rw [noTransfer]
      exact ok.pending
    · rw [Position.consumed, noStatus]
      exact ok.known
  · simp only [Position.rank, CollectorStage.index]
    omega

end Stages

/-- A round that begins before the end of the packet is one of the first `m`. -/
theorem EndsAt.lt_of_not_terminated (ends : EndsAt n words m) {k : Nat} (below : k < n)
    (unclosed : terminated words k = false) : k < m := by
  by_contra beyond
  have closed := (ends.terminated_iff k below).mpr (Nat.not_lt.mp beyond)
  rw [unclosed] at closed
  cases closed

/-- The first process goes on as the position says. -/
theorem issuerStep_advances (ends : EndsAt n words m) (marked : LastAt transfer n) {p : Position}
    (ok : p.Ok n words m) (taken : issuerStep depths (p.state transfer n words m) = some s') :
    Advances transfer n words m p s' := by
  rcases p with ⟨a, stage, b, collector, answered⟩
  have tokens := ok.tokens
  have pending := ok.pending
  dsimp only at tokens pending
  cases stage with
  | readIn =>
    have below : a < n := ok.issuer_lt IssuerStage.noConfusion
    have here : between transfer (a + 0) n = transfer a :: between transfer (a + 1) n :=
      between_cons below
    simp only [issuerStep, Position.state, issuerAt, IssuerStage.taken, here] at taken
    refine Advances.issuerStage ok .readToken IssuerStage.noConfusion IssuerStage.noConfusion
      (by decide) tokens IssuerStage.noConfusion (by decide) ?_
    exact (Option.some.inj taken).symm
  | readToken =>
    have below : a < n := ok.issuer_lt IssuerStage.noConfusion
    simp only [issuerStep, Position.state, issuerAt, IssuerStage.asked] at taken
    split at taken
    · cases taken
    · rename_i token later channel
      rcases between_receive channel with ⟨ready, isToken, rest⟩
      rw [Nat.add_zero] at ready isToken rest
      subst isToken rest
      cases denied : terminated words a with
      | true =>
        rw [denied] at taken
        have beyond : m ≤ a := (ends.terminated_iff a below).mp denied
        have count : min (a + 1) m = min (a + 0) m := by omega
        refine Advances.issuerStage ok .push IssuerStage.noConfusion IssuerStage.noConfusion
          (by decide) ready IssuerStage.noConfusion (by decide) ?_
        rw [← Option.some.inj taken]
        simp only [Position.state, Position.issued, IssuerStage.issued, count]
        rfl
      | false =>
        rw [denied] at taken
        refine Advances.issuerStage ok .issue IssuerStage.noConfusion IssuerStage.noConfusion
          (by decide) ready (fun _ => denied) (by decide) ?_
        exact (Option.some.inj taken).symm
  | issue =>
    have below : a < n := ok.issuer_lt IssuerStage.noConfusion
    have under : a < m := ends.lt_of_not_terminated below (ok.allowed rfl)
    have before : min (a + 0) m = a := by omega
    have after : min (a + 1) m = a + 1 := by omega
    simp only [issuerStep, Position.state, issuerAt] at taken
    refine Advances.issuerStage ok .push IssuerStage.noConfusion IssuerStage.noConfusion
      (by decide) tokens IssuerStage.noConfusion (by decide) ?_
    rw [← Option.some.inj taken]
    have sent := @between_send _ (fun k => transferCommand (transfer k)) 0 a (Nat.zero_le a)
    simp only [Position.state, Position.issued, IssuerStage.issued, before, after, ← sent]
    rfl
  | push =>
    have below : a < n := ok.issuer_lt IssuerStage.noConfusion
    simp only [issuerStep, Position.state, issuerAt] at taken
    have taken := (Option.some.inj (Option.ite_none_right_eq_some.mp taken).2).symm
    have sent := @between_send _ transfer (b + collector.popped) a pending
    have final := marked a below
    cases isLast : (transfer a).last with
    | true =>
      rw [isLast] at final taken
      refine Advances.issuerRound ok (.inr rfl) (iff_of_true rfl (final.mp rfl)) ?_
      rw [taken]
      simp only [Position.state, ← sent]
      rfl
    | false =>
      rw [isLast] at final taken
      have more : a + 1 ≠ n := fun whole => Bool.noConfusion (final.mpr whole)
      refine Advances.issuerRound ok (.inl rfl) (iff_of_false IssuerStage.noConfusion more) ?_
      rw [taken]
      simp only [Position.state, ← sent]
      rfl
  | done =>
    simp only [issuerStep, Position.state, issuerAt] at taken
    cases taken

theorem forwarded_last (k : Nat) : (forwarded transfer words k).last = (transfer k).last := by
  unfold forwarded
  split <;> rfl

/-- The second process goes on as the position says. -/
theorem collectorStep_advances (ends : EndsAt n words m) (marked : LastAt transfer n) {p : Position}
    (ok : p.Ok n words m) (taken : collectorStep depths (p.state transfer n words m) = some s') :
    Advances transfer n words m p s' := by
  rcases p with ⟨a, issuer, b, stage, answered⟩
  have tokens := ok.tokens
  have pending := ok.pending
  have known := ok.known
  dsimp only at tokens pending
  rw [Position.consumed] at known
  cases stage with
  | sendToken =>
    simp only [collectorStep, Position.state, collectorAt] at taken
    have taken := (Option.some.inj (Option.ite_none_right_eq_some.mp taken).2).symm
    have sent := @between_send _ (terminated words) (a + issuer.asked) b tokens
    refine Advances.collectorStage ok .readPending CollectorStage.noConfusion
      CollectorStage.noConfusion (by decide) (by decide) pending CollectorStage.noConfusion known ?_
    rw [taken]
    simp only [Position.state, CollectorStage.sent, ← sent]
    rfl
  | readPending =>
    have below : b < n := ok.collector_lt CollectorStage.noConfusion
    simp only [collectorStep, Position.state, collectorAt, CollectorStage.popped] at taken
    split at taken
    · cases taken
    · rename_i head later channel
      rcases between_receive channel with ⟨ready, isHead, rest⟩
      rw [Nat.add_zero] at ready isHead rest
      subst isHead rest
      have taken := (Option.some.inj taken).symm
      have flag : terminated words (b + CollectorStage.readPending.read) = terminated words b := rfl
      cases closed : terminated words b with
      | true =>
        simp only [flag, closed, ↓reduceIte] at taken
        have beyond : m ≤ b := (ends.terminated_iff b below).mp closed
        have count : min (b + 1) m = min (b + 0) m := by omega
        have still : terminated words (b + 1) = true := by
          rw [terminated_succ, closed]
          rfl
        have zero : forwarded transfer words b = zeroed (transfer b) := by
          rw [forwarded, if_pos closed]
        refine Advances.collectorStage ok .write CollectorStage.noConfusion
          CollectorStage.noConfusion (by decide) (by decide) ready CollectorStage.noConfusion
          (count.trans_le known) ?_
        rw [taken]
        simp only [Position.state, collectorAt, Position.consumed, CollectorStage.read, count, zero,
          still]
        rfl
      | false =>
        simp only [flag, closed, Bool.false_eq_true, ↓reduceIte] at taken
        refine Advances.collectorStage ok .readStatus CollectorStage.noConfusion
          CollectorStage.noConfusion (by decide) (by decide) ready (fun _ => closed) known ?_
        rw [taken]
        simp only [Position.state, CollectorStage.read, Nat.add_zero, closed]
        rfl
  | readStatus =>
    have below : b < n := ok.collector_lt CollectorStage.noConfusion
    have unclosed : terminated words b = false := ok.waiting rfl
    have under : b < m := ends.lt_of_not_terminated below unclosed
    have before : min (b + 0) m = b := by omega
    have after : min (b + 1) m = b + 1 := by omega
    simp only [collectorStep, Position.state, collectorAt, Position.consumed, CollectorStage.read,
      before] at taken
    split at taken
    · cases taken
    · rename_i word later channel
      rcases between_receive channel with ⟨ready, isWord, rest⟩
      subst isWord rest
      have taken := (Option.some.inj taken).symm
      have flag : terminated words (b + 1) = (ibttStatus (words b)).endOfPacket := by
        rw [terminated_succ, unclosed, Bool.false_or]
      have kept : forwarded transfer words b = transfer b := by
        rw [forwarded, if_neg (by rw [unclosed]; exact Bool.false_ne_true)]
      refine Advances.collectorStage ok .write CollectorStage.noConfusion
        CollectorStage.noConfusion (by decide) (by decide) pending CollectorStage.noConfusion
        (after.trans_le ready) ?_
      rw [taken]
      simp only [Position.state, collectorAt, Position.consumed, CollectorStage.read, after, kept,
        flag, bytesReceived_succ]
      rfl
  | write =>
    have below : b < n := ok.collector_lt CollectorStage.noConfusion
    have sent := @between_send _ (forwarded transfer words) 0 b (Nat.zero_le b)
    have final := marked b below
    simp only [collectorStep, Position.state, collectorAt, forwarded_last] at taken
    cases isLast : (transfer b).last with
    | true =>
      rw [isLast] at final taken
      have taken := (Option.some.inj taken).symm
      refine Advances.collectorRound ok (.inr rfl) (iff_of_true rfl (final.mp rfl)) ?_
      rw [taken]
      simp only [Position.state, ← sent]
      rfl
    | false =>
      rw [isLast] at final taken
      have taken := (Option.some.inj taken).symm
      have more : b + 1 ≠ n := fun whole => Bool.noConfusion (final.mpr whole)
      refine Advances.collectorRound ok (.inl rfl) (iff_of_false CollectorStage.noConfusion more) ?_
      rw [taken]
      simp only [Position.state, ← sent]
      rfl
  | done =>
    simp only [collectorStep, Position.state, collectorAt] at taken
    cases taken

/-- The DataMover goes on as the position says. -/
theorem datamoverStep_advances (ends : EndsAt n words m) {p : Position} (ok : p.Ok n words m)
    (taken : datamoverStep words (p.state transfer n words m) = some s') :
    Advances transfer n words m p s' := by
  rcases Option.ite_none_right_eq_some.mp taken with ⟨unanswered, taken⟩
  have taken := (Option.some.inj taken).symm
  have more : p.answered < p.issued m := by
    simpa only [Position.state, between_length, Nat.sub_zero] using unanswered
  have sent := @between_send _ words (p.consumed m) p.answered ok.known
  have bound : p.issued m ≤ n := Nat.le_trans (Nat.min_le_right _ _) ends.le
  refine ⟨{ p with answered := p.answered + 1 }, ?_, ?_, ?_⟩
  · exact ⟨ok.tokens, ok.pending, ok.issuerLe, ok.issuerDone, ok.collectorLe, ok.collectorDone,
      ok.allowed, ok.waiting, Nat.le_succ_of_le ok.known, more⟩
  · rw [taken]
    simp only [Position.state, sent]
    rfl
  · simp only [Position.rank]
    omega

theorem step_advances (ends : EndsAt n words m) (marked : LastAt transfer n) {p : Position}
    (ok : p.Ok n words m) {actor : Actor}
    (taken : step depths words (p.state transfer n words m) actor = some s') :
    Advances transfer n words m p s' := by
  cases actor with
  | issuer => exact issuerStep_advances ends marked ok taken
  | collector => exact collectorStep_advances ends marked ok taken
  | datamover => exact datamoverStep_advances ends ok taken

/-- A schedule comes to a position, with fewer steps left. -/
theorem run_advances (ends : EndsAt n words m) (marked : LastAt transfer n) {p : Position}
    (ok : p.Ok n words m) {schedule : List Actor} {s : Dataflow}
    (ran : Runs.run (step depths words) (p.state transfer n words m) schedule = some s) :
    ∃ p' : Position, p'.Ok n words m ∧ s = p'.state transfer n words m ∧
      schedule.length + p'.rank n ≤ p.rank n := by
  induction schedule generalizing p with
  | nil =>
    cases ran
    exact ⟨p, ok, rfl, by simp⟩
  | cons actor schedule ih =>
    rcases Option.bind_eq_some_iff.mp ran with ⟨s₁, taken, later⟩
    rcases step_advances ends marked ok taken with ⟨p₁, ok₁, rfl, fewer⟩
    rcases ih ok₁ later with ⟨p', ok', same, steps⟩
    refine ⟨p', ok', same, ?_⟩
    rw [List.length_cons]
    omega

/-! ## Somebody can go on -/

theorem issuer_ready (room : 0 < depths.pendingTransfers) {p : Position} (ok : p.Ok n words m)
    (unfinished : p.issuer ≠ .done)
    (asking : p.issuer = .readToken → p.issuerRounds < p.collectorRounds + p.collector.sent)
    (empty : p.issuer = .push → p.issuerRounds ≤ p.collectorRounds + p.collector.popped) :
    ∃ s', issuerStep depths (p.state transfer n words m) = some s' := by
  rcases p with ⟨a, stage, b, collector, answered⟩
  dsimp only at unfinished asking empty
  have below : a < n := ok.issuer_lt unfinished
  cases stage with
  | readIn =>
    have here : between transfer (a + 0) n = transfer a :: between transfer (a + 1) n :=
      between_cons below
    simp only [issuerStep, Position.state, issuerAt, IssuerStage.taken, here]
    exact ⟨_, rfl⟩
  | readToken =>
    have here := @between_cons _ (terminated words) (a + 0) (b + collector.sent) (asking rfl)
    simp only [issuerStep, Position.state, issuerAt, IssuerStage.asked, here]
    exact ⟨_, rfl⟩
  | issue => exact ⟨_, rfl⟩
  | push =>
    have none : a - (b + collector.popped) = 0 := Nat.sub_eq_zero_of_le (empty rfl)
    simp only [issuerStep, Position.state, issuerAt, between_length, none, if_pos room]
    exact ⟨_, rfl⟩
  | done => exact absurd rfl unfinished

/-- As long as the processes have not returned, one of them or the DataMover can go on. -/
theorem progress (ends : EndsAt n words m)
    (room : 0 < depths.pendingTransfers ∧ 0 < depths.streamIsTerminated) {p : Position}
    (ok : p.Ok n words m) :
    (p.state transfer n words m).Finished ∨
      ∃ actor s', step depths words (p.state transfer n words m) actor = some s' := by
  by_cases returned : p.collector = .done
  · have whole := ok.collectorDone.mp returned
    have pending := ok.pending
    have issuerLe := ok.issuerLe
    have issuer : p.issuer = .done := ok.issuerDone.mpr (by omega)
    left
    simp only [Dataflow.Finished, Position.state, issuer, returned, issuerAt, collectorAt, and_self]
  have below : p.collectorRounds < n := ok.collector_lt returned
  right
  rcases p with ⟨a, issuer, b, stage, answered⟩
  have tokens := ok.tokens
  have pending := ok.pending
  have issuerDone := ok.issuerDone
  dsimp only at returned below tokens pending issuerDone
  cases stage with
  | sendToken =>
    -- Every token that was sent has been asked for.
    have none : b + 0 - (a + issuer.asked) = 0 := by
      simp only [CollectorStage.popped] at pending
      omega
    refine ⟨.collector, ?_⟩
    simp only [step, collectorStep, Position.state, collectorAt, CollectorStage.sent, between_length,
      none, if_pos room.2]
    exact ⟨_, rfl⟩
  | readPending =>
    simp only [CollectorStage.popped, CollectorStage.sent] at pending tokens
    rcases Nat.lt_or_ge b a with ready | empty
    · have here := @between_cons _ transfer (b + 0) a ready
      refine ⟨.collector, ?_⟩
      simp only [step, collectorStep, Position.state, collectorAt, CollectorStage.popped, here]
      exact ⟨_, rfl⟩
    · refine ⟨.issuer, issuer_ready room.1 ok ?_ ?_ ?_⟩
      · intro done
        have whole := issuerDone.mp done
        omega
      · intro _
        simp only [CollectorStage.sent]
        omega
      · intro _
        simp only [CollectorStage.popped]
        omega
  | readStatus =>
    have under : b < m := ends.lt_of_not_terminated below (ok.waiting rfl)
    have consumed : Position.consumed m ⟨a, issuer, b, .readStatus, answered⟩ = b := by
      simp only [Position.consumed, CollectorStage.read]
      omega
    have known := ok.known
    rw [consumed] at known
    dsimp only at known
    rcases Nat.lt_or_ge b answered with ready | empty
    · have here := @between_cons _ words b answered ready
      refine ⟨.collector, ?_⟩
      simp only [step, collectorStep, Position.state, collectorAt, consumed, here]
      exact ⟨_, rfl⟩
    · refine ⟨.datamover, ?_⟩
      have more : answered < Position.issued m ⟨a, issuer, b, .readStatus, answered⟩ := by
        simp only [CollectorStage.popped] at pending
        simp only [Position.issued]
        omega
      simp only [step, datamoverStep, Position.state, between_length, Nat.sub_zero, if_pos more]
      exact ⟨_, rfl⟩
  | write =>
    refine ⟨.collector, ?_⟩
    simp only [step, collectorStep, Position.state, collectorAt]
    split
    · exact ⟨_, rfl⟩
    · exact ⟨_, rfl⟩
  | done => exact absurd rfl returned

theorem origin_ok (nonempty : 0 < n) : origin.Ok n words m := by
  refine ⟨Nat.le_refl _, Nat.le_refl _, Nat.zero_le _, ⟨IssuerStage.noConfusion, ?_⟩, Nat.zero_le _,
    ⟨CollectorStage.noConfusion, ?_⟩, IssuerStage.noConfusion, CollectorStage.noConfusion, ?_, ?_⟩
  · intro whole
    exact absurd whole (Nat.ne_of_lt nonempty)
  · intro whole
    exact absurd whole (Nat.ne_of_lt nonempty)
  · exact Nat.min_le_left _ _
  · exact Nat.zero_le _

theorem origin_state : origin.state transfer n words m = start (between transfer 0 n) := by
  simp [Position.state, origin, start, issuerAt, collectorAt, IssuerStage.taken, IssuerStage.asked,
    CollectorStage.sent, CollectorStage.popped, CollectorStage.read, Position.issued,
    Position.consumed, IssuerStage.issued, terminated, bytesReceived, u64]

/-- What was forwarded in all rounds. -/
theorem forwarded_all (ends : EndsAt n words m) : between (forwarded transfer words) 0 n =
    between transfer 0 m ++ (between transfer m n).map zeroed := by
  rw [← between_append (Nat.zero_le m) ends.le]
  congr 1
  · refine List.map_congr_left ?_
    intro k member
    have below : k < m := by
      have := List.mem_range'_1.mp member
      omega
    rw [forwarded, if_neg]
    rw [ends.terminated_iff k (Nat.lt_of_lt_of_le below ends.le)]
    omega
  · rw [between, between, List.map_map]
    refine List.map_congr_left ?_
    intro k member
    have range := List.mem_range'_1.mp member
    have below : k < n := by omega
    rw [forwarded, if_pos ((ends.terminated_iff k below).mpr range.1)]
    rfl

end Steps

/-! ## Every schedule -/

/-- The position of the first status among the first `n` that ends the packet, or `n`. -/
def packetEnd (words : Nat → Nat) (n : Nat) : Nat :=
  match (List.range n).find? fun k => (ibttStatus (words k)).endOfPacket with
  | some k => k + 1
  | none => n

theorem packetEnd_endsAt (words : Nat → Nat) (n : Nat) : EndsAt n words (packetEnd words n) := by
  unfold packetEnd
  split
  · rename_i j found
    rcases List.find?_range_eq_some.mp found with ⟨ends, range, earlier⟩
    have below := List.mem_range.mp range
    refine ⟨below, ?_⟩
    intro k _
    simp only [terminated, decide_eq_true_eq]
    constructor
    · intro closed
      rcases closed with ⟨i, early, ends'⟩
      by_contra late
      have open' := earlier i (by omega)
      rw [ends'] at open'
      cases open'
    · intro late
      exact ⟨j, late, ends⟩
  · rename_i missing
    rw [List.find?_range_eq_none] at missing
    refine ⟨Nat.le_refl _, ?_⟩
    intro k below
    simp only [terminated, decide_eq_true_eq]
    constructor
    · intro closed
      rcases closed with ⟨i, early, ends'⟩
      have open' := missing i (by omega)
      rw [ends'] at open'
      cases open'
    · intro late
      omega

section Lists

variable {transfers : List TransferElement}

/-- The `k`-th transfer. -/
def transferAt (transfers : List TransferElement) (k : Nat) : TransferElement :=
  transfers.getD k ⟨⟨0, 0, .host⟩, false⟩

theorem between_transferAt {lo hi : Nat} (inside : hi ≤ transfers.length) :
    between (transferAt transfers) lo hi = (transfers.take hi).drop lo := by
  refine List.ext_getElem? ?_
  intro k
  rw [List.getElem?_drop, between, List.getElem?_map]
  rcases Nat.lt_or_ge k (hi - lo) with below | above
  · rw [List.getElem?_range' below, List.getElem?_take_of_lt (by omega),
      List.getElem?_eq_getElem (by omega)]
    simp only [Option.map_some, transferAt, Nat.one_mul, List.getD_eq_getElem?_getD,
      List.getElem?_eq_getElem (show lo + k < transfers.length by omega), Option.getD_some]
  · rw [List.getElem?_eq_none (by rw [List.length_range']; exact above),
      List.getElem?_eq_none (by rw [List.length_take]; omega)]
    rfl

theorem between_transferAt_all : between (transferAt transfers) 0 transfers.length = transfers := by
  rw [between_transferAt (Nat.le_refl _), List.take_length, List.drop_zero]

theorem lastAt_transferAt (marked : ∀ k element, transfers[k]? = some element →
    (element.last = true ↔ k + 1 = transfers.length)) :
    LastAt (transferAt transfers) transfers.length := by
  intro k below
  have here := marked k transfers[k] (List.getElem?_eq_getElem below)
  simpa only [transferAt, List.getD_eq_getElem?_getD, List.getElem?_eq_getElem below,
    Option.getD_some] using here

/-- The processes return with their last round. -/
theorem finished_rounds {transfer : Nat → TransferElement} {n m : Nat} {words : Nat → Nat}
    {p : Position} (ok : p.Ok n words m) (finished : (p.state transfer n words m).Finished) :
    p.issuer = .done ∧ p.issuerRounds = n ∧ p.collector = .done ∧ p.collectorRounds = n := by
  rcases p with ⟨a, issuer, b, collector, answered⟩
  rcases finished with ⟨issuerDone, collectorDone⟩
  have first : issuer = .done := by
    cases issuer with
    | done => rfl
    | readIn => cases issuerDone
    | readToken => cases issuerDone
    | issue => cases issuerDone
    | push => cases issuerDone
  have second : collector = .done := by
    cases collector with
    | done => rfl
    | sendToken => cases collectorDone
    | readPending => cases collectorDone
    | readStatus => cases collectorDone
    | write => cases collectorDone
  exact ⟨first, ok.issuerDone.mp first, second, ok.collectorDone.mp second⟩

/-- The bytes that the first `m` statuses report. -/
def reportedBytes (words : Nat → Nat) (m : Nat) : Nat :=
  ((List.range m).map fun k => bits (words k) 30 8).sum

theorem reportedBytes_le (words : Nat → Nat) (m : Nat) :
    reportedBytes words m ≤ m * (2 ^ 23 - 1) := by
  unfold reportedBytes
  induction m with
  | zero => simp
  | succ m ih =>
    have digit : bits (words m) 30 8 ≤ 2 ^ 23 - 1 := by
      unfold bits
      omega
    rw [List.range_succ, List.map_append, List.sum_append, List.map_singleton, List.sum_singleton]
    omega

/-- For every list of transfers whose last one is marked, every sequence of status words and every
schedule: it has at most nine steps for each transfer, somebody can go on until both processes have
returned, a command is never issued before the status of the one before has been read, and in the
end exactly the commands of the transfers up to the end of the packet have been issued and their
statuses read, the other transfers have been forwarded with size zero and `*size` is the sum of what
the statuses report. -/
theorem dataflow_terminates {depths : Depths}
    (room : 0 < depths.pendingTransfers ∧ 0 < depths.streamIsTerminated) (nonempty : transfers ≠ [])
    (marked : ∀ k element, transfers[k]? = some element →
      (element.last = true ↔ k + 1 = transfers.length))
    {words : Nat → Nat} {m : Nat} (ends : packetEnd words transfers.length = m)
    {schedule : List Actor} {s : Dataflow}
    (ran : Runs.run (step depths words) (start transfers) schedule = some s) :
    schedule.length ≤ 9 * transfers.length ∧
      (s.Finished ∨ ∃ actor s', step depths words s actor = some s') ∧
      s.commands <+: (transfers.take m).map transferCommand ∧
      s.commands.length ≤ s.consumed + 1 ∧
      (s.Finished →
        s.commands = (transfers.take m).map transferCommand ∧ s.consumed = m ∧
        s.out = transfers.take m ++ (transfers.drop m).map zeroed ∧
        s.size = some (u64 (reportedBytes words m)) ∧
        (transfers.length ≤ 2 ^ 41 → s.size = some (reportedBytes words m))) := by
  have endsAt : EndsAt transfers.length words m := ends ▸ packetEnd_endsAt words transfers.length
  have lastAt := lastAt_transferAt marked
  have positive : 0 < transfers.length := List.length_pos_iff.mpr nonempty
  have entered : origin.state (transferAt transfers) transfers.length words m = start transfers := by
    rw [origin_state, between_transferAt_all]
  rw [← entered] at ran
  rcases run_advances endsAt lastAt (origin_ok positive) ran with ⟨p, ok, rfl, steps⟩
  have mapped : ∀ k, between (fun k => transferCommand (transferAt transfers k)) 0 k =
      (between (transferAt transfers) 0 k).map transferCommand := by
    intro k
    rw [between, between, List.map_map]
    rfl
  have issued : p.issued m ≤ m := Nat.min_le_right _ _
  refine ⟨?_, progress endsAt room ok, ?_, ?_, ?_⟩
  · have total : origin.rank transfers.length = 9 * transfers.length := by
      simp only [Position.rank, origin, IssuerStage.index, CollectorStage.index]
      omega
    omega
  · simp only [Position.state, mapped, between_transferAt (Nat.le_trans issued endsAt.le),
      List.drop_zero]
    refine List.IsPrefix.map _ ?_
    exact List.take_prefix_take_left issued
  · have tokens := ok.tokens
    simp only [Position.state, between_length, Position.issued, Position.consumed]
    have more : p.issuer.issued ≤ p.issuer.asked := by
      cases p.issuer <;> decide
    have one : p.collector.sent ≤ 1 := by
      cases p.collector <;> decide
    omega
  · intro finished
    rcases finished_rounds ok finished with ⟨issuer, issuerRounds, collector, collectorRounds⟩
    have all : p.issued m = m := by
      simp only [Position.issued, issuerRounds]
      exact Nat.min_eq_right (Nat.le_trans endsAt.le (Nat.le_add_right _ _))
    have read : p.consumed m = m := by
      simp only [Position.consumed, collectorRounds]
      exact Nat.min_eq_right (Nat.le_trans endsAt.le (Nat.le_add_right _ _))
    have size : (p.state (transferAt transfers) transfers.length words m).size =
        some (u64 (reportedBytes words m)) := by
      simp only [Position.state, collector, read, if_true]
      rfl
    refine ⟨?_, read, ?_, size, ?_⟩
    · simp only [Position.state, mapped, all, between_transferAt endsAt.le, List.drop_zero]
    · simp only [Position.state, collectorRounds, forwarded_all endsAt, between_transferAt endsAt.le,
        between_transferAt (Nat.le_refl transfers.length), List.take_length, List.drop_zero]
    · intro short
      have bound := reportedBytes_le words m
      have le := endsAt.le
      rw [size, u64_of_lt]
      omega

/-- Two blocks of the host. -/
def twoTransfers : List TransferElement :=
  [⟨⟨42 * storageBlockSize, storageBlockSize, .host⟩, false⟩,
    ⟨⟨43 * storageBlockSize, storageBlockSize, .host⟩, true⟩]

/-- The first status ends the packet after 8 bytes. -/
def earlyEnd : Nat → Nat := fun _ => 2 ^ 31 + 8 * 2 ^ 8

/-- The two processes in turn. -/
def inTurn : List Actor :=
  [.issuer, .collector, .issuer, .issuer, .issuer, .collector, .datamover, .collector, .collector,
    .issuer, .collector, .issuer, .issuer, .collector, .collector]

theorem dataflow_terminates_early :
    ∃ s, Runs.run (step ⟨1, 1⟩ earlyEnd) (start twoTransfers) inTurn = some s ∧ s.Finished ∧
      s.commands = (twoTransfers.take 1).map transferCommand ∧ s.consumed = 1 ∧
      s.out = twoTransfers.take 1 ++ (twoTransfers.drop 1).map zeroed ∧
      s.size = some (reportedBytes earlyEnd 1) := by
  have finishes : (Runs.run (step ⟨1, 1⟩ earlyEnd) (start twoTransfers) inTurn).map
      (fun s => (s.issuer, s.collector)) = some (.done, .done) := by
    decide +kernel
  rcases Option.map_eq_some_iff.mp finishes with ⟨s, ran, returned⟩
  have finished : s.Finished := Prod.mk.inj returned
  have marked : ∀ k element, twoTransfers[k]? = some element →
      (element.last = true ↔ k + 1 = twoTransfers.length) := by
    intro k element found
    rcases k with _ | _ | k
    · cases found
      decide
    · cases found
      decide
    · cases found
  have result := (dataflow_terminates ⟨by decide, by decide⟩ (by decide) marked
    (show packetEnd earlyEnd 2 = 1 by decide +kernel) ran).2.2.2.2 finished
  exact ⟨s, ran, finished, result.1, result.2.1, result.2.2.1, result.2.2.2.2 (by decide)⟩

/-! ## The processes one after the other -/

theorem packetEnd_succ (words : Nat → Nat) (n : Nat) : packetEnd words (n + 1) =
    if (ibttStatus (words 0)).endOfPacket then 1
    else packetEnd (fun k => words (k + 1)) n + 1 := by
  unfold packetEnd
  rw [List.range_succ_eq_map]
  cases first : (ibttStatus (words 0)).endOfPacket with
  | true => simp [first]
  | false =>
    simp only [List.find?_cons, first, List.find?_map, Function.comp_def, Bool.false_eq_true,
      ↓reduceIte, Nat.succ_eq_add_one]
    cases (List.range n).find? fun k => (ibttStatus (words (k + 1))).endOfPacket <;> rfl

theorem reportedBytes_succ (words : Nat → Nat) (m : Nat) : reportedBytes words (m + 1) =
    bits (words 0) 30 8 + reportedBytes (fun k => words (k + 1)) m := by
  unfold reportedBytes
  rw [List.range_succ_eq_map, List.map_cons, List.sum_cons, List.map_map]
  rfl

/-- The transfers behind the first one. -/
theorem marked_tail {element : TransferElement} {later : List TransferElement}
    (marked : ∀ k x, (element :: later)[k]? = some x →
      (x.last = true ↔ k + 1 = (element :: later).length)) :
    (element.last = true ↔ later = []) ∧
      ∀ k x, later[k]? = some x → (x.last = true ↔ k + 1 = later.length) := by
  constructor
  · have first := marked 0 element rfl
    rw [List.length_cons] at first
    rw [first]
    constructor
    · intro same
      exact List.eq_nil_of_length_eq_zero (by omega)
    · intro none
      rw [none]
      rfl
  · intro k x found
    have there := marked (k + 1) x (by rw [List.getElem?_cons_succ]; exact found)
    rw [there, List.length_cons]
    omega

/-- After the end of the packet nothing but the sizes changes. -/
theorem transferFromStream_terminated (dmSts : List DatamoverIbttStatus) (nonempty : transfers ≠ [])
    (marked : ∀ k x, transfers[k]? = some x → (x.last = true ↔ k + 1 = transfers.length)) :
    transferFromStream transfers dmSts true = some ⟨[], transfers.map zeroed, 0⟩ := by
  induction transfers with
  | nil => exact absurd rfl nonempty
  | cons element later ih =>
    rcases marked_tail marked with ⟨final, tail⟩
    cases isLast : element.last with
    | true =>
      rw [final.mp isLast]
      simp [transferFromStream, isLast, zeroed]
    | false =>
      have more : later ≠ [] := by
        intro none
        rw [final.mpr none] at isLast
        cases isLast
      simp [transferFromStream, isLast, ih more tail, zeroed]

/-- The function that runs the processes one after the other, which the later stages are modelled
over, gives what every schedule comes to. -/
theorem transferFromStream_eq (words : Nat → Nat) (nonempty : transfers ≠ [])
    (marked : ∀ k x, transfers[k]? = some x → (x.last = true ↔ k + 1 = transfers.length)) {m : Nat}
    (ends : packetEnd words transfers.length = m) :
    transferFromStream transfers ((List.range m).map fun k => ibttStatus (words k)) false =
      some ⟨(transfers.take m).map transferCommand,
        transfers.take m ++ (transfers.drop m).map zeroed, u64 (reportedBytes words m)⟩ := by
  induction transfers generalizing words m with
  | nil => exact absurd rfl nonempty
  | cons element later ih =>
    rcases marked_tail marked with ⟨final, tail⟩
    rw [List.length_cons, packetEnd_succ] at ends
    -- The first status is read, and the rest of the transfers follows with the later ones.
    have round : ∀ rest : FromStream, ∀ later',
        (if element.last then some ⟨[], [], 0⟩ else transferFromStream later later'
          (ibttStatus (words 0)).endOfPacket) = some rest →
        transferFromStream (element :: later) (ibttStatus (words 0) :: later') false =
          some ⟨transferCommand element :: rest.commands, element :: rest.out,
            u64 (bits (words 0) 30 8 + rest.size)⟩ := by
      intro rest later' returned
      rw [transferFromStream]
      simp only [Bool.false_eq_true, ↓reduceIte, returned, Option.map_some]
      rfl
    obtain ⟨m', rfl⟩ : ∃ m', m = m' + 1 := by
      split at ends
      · exact ⟨0, ends.symm⟩
      · exact ⟨_, ends.symm⟩
    rw [List.range_succ_eq_map, List.map_cons, List.map_map, reportedBytes_succ, List.take_succ_cons,
      List.map_cons, List.drop_succ_cons]
    cases isLast : element.last with
    | true =>
      have alone := final.mp isLast
      subst alone
      have none : m' = 0 := by
        have le := (packetEnd_endsAt (fun k => words (k + 1)) 0).le
        rw [List.length_nil] at ends
        split at ends <;> omega
      subst none
      rw [round ⟨[], [], 0⟩ _ (by rw [isLast]; rfl)]
      simp [reportedBytes]
    | false =>
      have more : later ≠ [] := by
        intro none
        rw [final.mpr none] at isLast
        cases isLast
      cases closed : (ibttStatus (words 0)).endOfPacket with
      | true =>
        rw [if_pos closed] at ends
        obtain rfl : m' = 0 := by omega
        rw [round ⟨[], later.map zeroed, 0⟩ _ (by
          rw [isLast, closed]
          exact transferFromStream_terminated _ more tail)]
        simp [reportedBytes]
      | false =>
        rw [if_neg (by rw [closed]; exact Bool.false_ne_true)] at ends
        have rest := ih (fun k => words (k + 1)) more tail (Nat.succ.inj ends)
        rw [round _ _ (by
          rw [isLast, closed]
          exact rest)]
        simp [u64]

end Lists

end TransferFromStream

end MetalFs.Fpga
