import MetalFs.Fpga.NvmeArbiter

/-!
# Responses of the NVMe arbiter

`Answers` ties the responses to the completions that the NVMe core reports.  With it the
invariant of the arbiter is complete, and it holds after every run.
-/

namespace MetalFs.Fpga

/-! ## Completions and responses -/

/-- The status was read. -/
def RegState.captured : RegState → Bool
  | rdStatusA | done => true
  | _ => false

namespace Controller

variable {c : Controller} {i : Inputs}

/-- A completion was reported and its entry is in the queue. -/
def reporting (c : Controller) : Bool :=
  (decide (c.state = .readStatus) && c.access.regState.captured && bit c.access.regStatus 0) ||
    c.fifoPull

/-- The entry was pulled and the response is not yet sent. -/
def sending (c : Controller) : Bool := c.state = .sendResRd ∨ c.state = .sendResWr

/-- A response is on one of the streams. -/
def Sends (c : Controller) : Prop := ∃ wrNotRd pull, c.state = sendState wrNotRd pull

theorem sendState_inj {wrNotRd pull wrNotRd' pull' : Bool}
    (same : sendState wrNotRd pull = sendState wrNotRd' pull') : wrNotRd = wrNotRd' ∧ pull = pull' := by
  cases wrNotRd <;> cases pull <;> cases wrNotRd' <;> cases pull' <;>
    first | exact ⟨rfl, rfl⟩ | cases same

theorem sends_eq {wrNotRd pull : Bool} (sends : c.state = sendState wrNotRd pull) :
    c.fifoPull = pull ∧ c.reporting = pull ∧ c.sending = !pull := by
  unfold reporting sending fifoPull
  rw [sends]
  cases wrNotRd <;> cases pull <;> exact ⟨rfl, rfl, rfl⟩

theorem not_sends_eq (silent : ¬ c.Sends) : c.fifoPull = false ∧ c.sending = false ∧
    c.rspRdValid = false ∧ c.rspWrValid = false := by
  unfold fifoPull sending rspRdValid rspWrValid
  cases state : c.state with
  | sendResRdPull => exact absurd ⟨false, true, state⟩ silent
  | sendResRd => exact absurd ⟨false, false, state⟩ silent
  | sendResWrPull => exact absurd ⟨true, true, state⟩ silent
  | sendResWr => exact absurd ⟨true, false, state⟩ silent
  | _ => exact ⟨rfl, rfl, rfl, rfl⟩

theorem not_sends_of_state {state : MainState} (at_ : c.state = state)
    (other : ∀ wrNotRd pull, state ≠ sendState wrNotRd pull) : ¬ c.Sends := by
  rintro ⟨wrNotRd, pull, sends⟩
  exact other wrNotRd pull (at_.symm.trans sends)

theorem ne_sendState {state : MainState}
    (plain : state = .idle ∨ state = .readStatus ∨ state = .writeCommandPush ∨
      state = .writeCommand ∨ state = .ready) (wrNotRd pull : Bool) :
    state ≠ sendState wrNotRd pull := by
  rcases plain with rfl | rfl | rfl | rfl | rfl <;> cases wrNotRd <;> cases pull <;>
    exact MainState.noConfusion

/-- Away from the response states a completion is reported while its status is kept. -/
theorem reporting_eq (silent : ¬ c.Sends) : c.reporting =
    (decide (c.state = .readStatus) && c.access.regState.captured && bit c.access.regStatus 0) := by
  rw [reporting, (not_sends_eq silent).1, Bool.or_false]

/-- The part a cycle plays in a response. -/
inductive AnswerStep (c : Controller) (i : Inputs) : MainState → AccessRegs → Prop where
  | none (state : MainState) (access : AccessRegs) (silent : ¬ c.Sends)
      (notYet : c.reporting = false) (unread : (c.rReady && i.rValid) = false)
      (after : ∀ wrNotRd pull, state ≠ sendState wrNotRd pull)
      (uncaptured : state = .readStatus → access.regState.captured = false) :
      AnswerStep c i state access
  | capture (r : RegState) (silent : ¬ c.Sends) (notYet : c.reporting = false)
      (read : (c.rReady && i.rValid) = true) (captured : r.captured = true) :
      AnswerStep c i .readStatus ⟨r, i.rData⟩
  | acknowledge (r : RegState) (reads : c.state = .readStatus)
      (before : c.access.regState.captured = true) (unread : (c.rReady && i.rValid) = false)
      (captured : r.captured = true) : AnswerStep c i .readStatus ⟨r, c.access.regStatus⟩
  | complete (wrNotRd : Bool) (reads : c.state = .readStatus)
      (before : c.access.regState.captured = true) (unread : (c.rReady && i.rValid) = false)
      (completed : bit c.access.regStatus 0 = true) (stream : c.fifoOut.wrNotRd = wrNotRd) :
      AnswerStep c i (sendState wrNotRd true) ⟨.idle, c.access.regStatus⟩
  | send (wrNotRd pull : Bool) (sends : c.state = sendState wrNotRd pull)
      (accepted : i.rspReady wrNotRd = true) (unread : (c.rReady && i.rValid) = false)
      (free : c.access.regState = .idle) : AnswerStep c i .readStatus c.access
  | hold (wrNotRd pull : Bool) (sends : c.state = sendState wrNotRd pull)
      (refused : i.rspReady wrNotRd = false) (unread : (c.rReady && i.rValid) = false) :
      AnswerStep c i (sendState wrNotRd false) c.access

theorem unread_of_regState {r : RegState} (access : c.access.regState = r)
    (notAR : r ≠ .rdStatusAR) (notR : r ≠ .rdStatusR) : (c.rReady && i.rValid) = false := by
  have notReady : c.rReady = false := by
    rw [rReady, access, decide_eq_false_iff_not, not_or]
    exact ⟨notAR, notR⟩
  rw [notReady, Bool.false_and]

theorem reporting_of_not_readStatus (silent : ¬ c.Sends) (other : c.state ≠ .readStatus) :
    c.reporting = false := by
  rw [reporting_eq silent, decide_eq_false other]
  rfl

theorem reporting_of_uncaptured (silent : ¬ c.Sends) (uncaptured : c.access.regState.captured = false) :
    c.reporting = false := by
  rw [reporting_eq silent, uncaptured, Bool.and_false, Bool.false_and]

theorem MainStep.answer {state : MainState} {access : AccessRegs} (main : MainStep c i state access) :
    AnswerStep c i state access := by
  cases main with
  | rest at_ invalid free | begin at_ valid free =>
    have silent := not_sends_of_state at_ (ne_sendState (Or.inl rfl))
    exact .none _ _ silent
      (reporting_of_not_readStatus silent (by rw [at_]; exact MainState.noConfusion))
      (unread_of_regState free RegState.noConfusion RegState.noConfusion)
      (ne_sendState (by simp)) MainState.noConfusion
  | poll at_ invalid free =>
    have silent := not_sends_of_state at_ (ne_sendState (Or.inl rfl))
    exact .none _ _ silent
      (reporting_of_not_readStatus silent (by rw [at_]; exact MainState.noConfusion))
      (unread_of_regState free RegState.noConfusion RegState.noConfusion)
      (ne_sendState (by simp)) (fun _ => by rw [free]; rfl)
  | request at_ free =>
    have silent := not_sends_of_state at_ (ne_sendState (by simp))
    exact .none _ _ silent (reporting_of_uncaptured silent (by rw [free]; rfl))
      (unread_of_regState free RegState.noConfusion RegState.noConfusion)
      (ne_sendState (by simp)) (fun _ => rfl)
  | await r at_ before unanswered after =>
    have silent := not_sends_of_state at_ (ne_sendState (by simp))
    refine .none _ _ silent (reporting_of_uncaptured silent ?_) (by rw [unanswered, Bool.and_false])
      (ne_sendState (by simp)) (fun _ => ?_)
    · rcases before with before | before <;> rw [before] <;> rfl
    · rcases after with rfl | rfl <;> rfl
  | capture r at_ before answered after =>
    have silent := not_sends_of_state at_ (ne_sendState (by simp))
    refine .capture r silent (reporting_of_uncaptured silent ?_) ?_ ?_
    · rcases before with before | before <;> rw [before] <;> rfl
    · rw [answered, Bool.and_true, rReady, decide_eq_true_eq]
      exact before
    · rcases after with rfl | rfl <;> rfl
  | acknowledge r at_ before after =>
    refine .acknowledge r at_ (by rw [before]; rfl)
      (unread_of_regState before RegState.noConfusion RegState.noConfusion) ?_
    rcases after with rfl | rfl <;> rfl
  | complete wrNotRd at_ before completed stream =>
    exact .complete wrNotRd at_ (by rw [before]; rfl)
      (unread_of_regState before RegState.noConfusion RegState.noConfusion) completed stream
  | nothing at_ before pending =>
    have silent := not_sends_of_state at_ (ne_sendState (by simp))
    refine .none _ _ silent ?_
      (unread_of_regState before RegState.noConfusion RegState.noConfusion)
      (ne_sendState (Or.inl rfl)) MainState.noConfusion
    rw [reporting_eq silent, pending, Bool.and_false]
  | send wrNotRd pull sends free accepted =>
    exact .send wrNotRd pull sends accepted
      (unread_of_regState free RegState.noConfusion RegState.noConfusion) free
  | hold wrNotRd pull sends free refused =>
    exact .hold wrNotRd pull sends refused
      (unread_of_regState free RegState.noConfusion RegState.noConfusion)
  | push at_ free =>
    have silent := not_sends_of_state at_ (ne_sendState (by simp))
    exact .none _ _ silent
      (reporting_of_not_readStatus silent (by rw [at_]; exact MainState.noConfusion))
      (unread_of_regState free RegState.noConfusion RegState.noConfusion)
      (ne_sendState (by simp)) MainState.noConfusion
  | write at_ writing unfinished =>
    have silent := not_sends_of_state at_ (ne_sendState (by simp))
    refine .none _ _ silent
      (reporting_of_not_readStatus silent (by rw [at_]; exact MainState.noConfusion))
      (unread_of_regState rfl ?_ ?_) (ne_sendState (by simp)) MainState.noConfusion
    · intro no
      rw [no] at writing
      cases writing
    · intro no
      rw [no] at writing
      cases writing
  | written at_ done =>
    have silent := not_sends_of_state at_ (ne_sendState (by simp))
    exact .none _ _ silent
      (reporting_of_not_readStatus silent (by rw [at_]; exact MainState.noConfusion))
      (unread_of_regState done RegState.noConfusion RegState.noConfusion)
      (ne_sendState (by simp)) MainState.noConfusion
  | release at_ free =>
    have silent := not_sends_of_state at_ (ne_sendState (by simp))
    exact .none _ _ silent
      (reporting_of_not_readStatus silent (by rw [at_]; exact MainState.noConfusion))
      (unread_of_regState free RegState.noConfusion RegState.noConfusion)
      (ne_sendState (by simp)) (fun _ => by rw [free]; rfl)

end Controller

namespace Arbiter

open Controller

variable {a : Arbiter} {i : Inputs} {finished : List Command}

/-- The responses follow the completions. -/
structure Answers (a : Arbiter) : Prop where
  completed : a.history.completions.length = a.history.pulls + a.controller.reporting.toNat
  sent : a.history.responses.length + a.controller.sending.toNat = a.history.pulls
  reported : a.history.completions.length ≤ a.history.burstsWritten
  latest : (a.controller.reporting || a.controller.sending) = true →
    a.history.completions.getLast? = some a.controller.access.regStatus
  responses : ∀ (k : Nat) (response : Response), a.history.responses[k]? = some response →
    ∃ (item : FifoItem) (status : Nat), a.history.pushes[k]? = some item ∧
      a.history.completions[k]? = some status ∧ response = ⟨item.wrNotRd, (bit status 1).toNat⟩
  stream : ∀ wrNotRd pull, a.controller.state = sendState wrNotRd pull → ∃ item,
    a.history.pushes[a.history.responses.length]? = some item ∧ item.wrNotRd = wrNotRd

theorem record_burstsWritten (a : Arbiter) (i : Inputs) :
    a.history.burstsWritten ≤ (a.record i).burstsWritten := by
  unfold History.burstsWritten record
  dsimp only
  rw [List.countP_append]
  omega

/-- The core reports within what was written. -/
theorem Answers.advance_reported (answers : Answers a) (admits : a.Admits i) :
    (a.advance i).history.completions.length ≤ (a.advance i).history.burstsWritten := by
  have later := record_burstsWritten a i
  have now := answers.reported
  have completions : (a.advance i).history.completions =
    a.history.completions ++ eventIf (a.reports i) i.rData := rfl
  change a.history.burstsWritten ≤ (a.advance i).history.burstsWritten at later
  rw [completions, List.length_append]
  cases reports : a.reports i with
  | false =>
    rw [eventIf_false, List.length_nil]
    omega
  | true =>
    have room := admits.completes reports
    rw [eventIf_true, List.length_singleton]
    omega

theorem record_responses_of_sends {wrNotRd pull : Bool}
    (sends : a.controller.state = sendState wrNotRd pull) (i : Inputs) :
    (a.record i).responses =
      a.history.responses ++ eventIf (i.rspReady wrNotRd) ⟨wrNotRd, a.controller.rspData⟩ := by
  unfold record rspRdValid rspWrValid Inputs.rspReady
  dsimp only
  rw [sends]
  cases wrNotRd <;> cases pull <;> simp [sendState]

theorem record_responses_of_not_sends (silent : ¬ a.controller.Sends) (i : Inputs) :
    (a.record i).responses = a.history.responses := by
  obtain ⟨-, -, rd, wr⟩ := not_sends_eq silent
  unfold record
  dsimp only
  rw [rd, wr, Bool.false_and, Bool.false_and, eventIf_false, eventIf_false, List.append_nil,
    List.append_nil]

/-- Every burst belongs to an entry of the queue. -/
theorem Tracked.burstsWritten_le (tracked : Tracked a finished) :
    a.history.burstsWritten ≤ a.history.pushes.length := by
  have addresses := tracked.addresses
  have implied : a.controller.addressDone.toNat ≤ a.controller.pushed.toNat := by
    unfold addressDone Controller.pushed
    cases a.controller.state with
    | writeCommand => exact Bool.toNat_le _
    | _ => exact Nat.le_refl _
  have length : a.history.pushes.length = finished.length + a.controller.pushed.toNat := by
    rw [tracked.pushes, List.length_map, List.length_append]
    cases a.controller.pushed <;> rfl
  unfold History.burstsWritten
  omega

/-- A completion that was reported has its entry in the queue. -/
theorem Answers.nonempty (tracked : Tracked a finished) (queued : Queued a) (answers : Answers a)
    (reporting : a.controller.reporting = true) : 0 < a.controller.fifo.fifoPos := by
  have position := queued.position
  have completed := answers.completed
  have reported := answers.reported
  have written := tracked.burstsWritten_le
  rw [reporting, Bool.toNat_true] at completed
  omega

theorem Answers.pull_nonempty (tracked : Tracked a finished) (queued : Queued a)
    (answers : Answers a) (pull : a.controller.fifoPull = true) :
    0 < a.controller.fifo.fifoPos := by
  apply answers.nonempty tracked queued
  rw [Controller.reporting, pull, Bool.or_true]

/-- The response to the completion that was reported last. -/
theorem Answers.next_response (answers : Answers a) {wrNotRd pull : Bool}
    (sends : a.controller.state = sendState wrNotRd pull) :
    ∃ item, a.history.pushes[a.history.responses.length]? = some item ∧ item.wrNotRd = wrNotRd ∧
      a.history.completions[a.history.responses.length]? = some a.controller.access.regStatus := by
  obtain ⟨item, pushed, stream⟩ := answers.stream wrNotRd pull sends
  obtain ⟨-, reporting, sending⟩ := sends_eq sends
  have completed := answers.completed
  have sent := answers.sent
  have latest := answers.latest (by rw [reporting, sending]; cases pull <;> rfl)
  refine ⟨item, pushed, stream, ?_⟩
  rw [reporting] at completed
  rw [sending] at sent
  rw [List.getLast?_eq_getElem?] at latest
  have place : a.history.completions.length - 1 = a.history.responses.length := by
    cases pull <;> simp only [Bool.toNat_true, Bool.toNat_false, Bool.not_true, Bool.not_false]
      at completed sent <;> omega
  rw [← place]
  exact latest

theorem advance_completions_of_unread (a : Arbiter)
    (unread : (a.controller.rReady && i.rValid) = false) :
    (a.advance i).history.completions = a.history.completions := by
  change a.history.completions ++ eventIf (a.reports i) i.rData = a.history.completions
  rw [reports, unread, Bool.false_and, eventIf_false, List.append_nil]

theorem advance_completions_of_read (a : Arbiter)
    (read : (a.controller.rReady && i.rValid) = true) :
    (a.advance i).history.completions =
      a.history.completions ++ eventIf (bit i.rData 0) i.rData := by
  change a.history.completions ++ eventIf (a.reports i) i.rData = _
  rw [reports, read, Bool.true_and]

theorem advance_pushes_getElem? (a : Arbiter) (i : Inputs) {k : Nat} {item : FifoItem}
    (pushed : a.history.pushes[k]? = some item) :
    (a.advance i).history.pushes[k]? = some item := by
  change (a.history.pushes ++ eventIf a.controller.fifoPush a.controller.fifoIn)[k]? = some item
  rw [List.getElem?_append_left (List.getElem?_eq_some_iff.mp pushed).1]
  exact pushed

theorem advance_completions_getElem? (a : Arbiter) (i : Inputs) {k : Nat} {status : Nat}
    (completed : a.history.completions[k]? = some status) :
    (a.advance i).history.completions[k]? = some status := by
  change (a.history.completions ++ eventIf (a.reports i) i.rData)[k]? = some status
  rw [List.getElem?_append_left (List.getElem?_eq_some_iff.mp completed).1]
  exact completed

/-- The responses that were sent stay answers to their completions. -/
theorem Answers.advance_response (answers : Answers a) (i : Inputs) {k : Nat} {response : Response}
    (sent : a.history.responses[k]? = some response) :
    ∃ (item : FifoItem) (status : Nat), (a.advance i).history.pushes[k]? = some item ∧
      (a.advance i).history.completions[k]? = some status ∧
        response = ⟨item.wrNotRd, (bit status 1).toNat⟩ := by
  obtain ⟨item, status, pushed, completed, same⟩ := answers.responses k response sent
  exact ⟨item, status, advance_pushes_getElem? a i pushed,
    advance_completions_getElem? a i completed, same⟩

/-- A cycle that starts away from the response states. -/
theorem Answers.advance_silent (answers : Answers a) (admits : a.Admits i)
    (silent : ¬ a.controller.Sends) (notSending : (a.advance i).controller.sending = false)
    (completed : (a.advance i).history.completions.length =
      a.history.pulls + (a.advance i).controller.reporting.toNat)
    (latest : (a.advance i).controller.reporting = true →
      (a.advance i).history.completions.getLast? = some (a.advance i).controller.access.regStatus)
    (stream : ∀ wrNotRd pull, (a.advance i).controller.state = sendState wrNotRd pull → ∃ item,
      a.history.pushes[a.history.responses.length]? = some item ∧ item.wrNotRd = wrNotRd) :
    Answers (a.advance i) := by
  have responses : (a.advance i).history.responses = a.history.responses :=
    record_responses_of_not_sends silent i
  have pulls : (a.advance i).history.pulls = a.history.pulls + a.controller.fifoPull.toNat := rfl
  have sent := answers.sent
  obtain ⟨noPull, notSendingBefore, -⟩ := not_sends_eq silent
  rw [notSendingBefore] at sent
  rw [noPull] at pulls
  refine ⟨?_, ?_, answers.advance_reported admits, ?_, ?_, ?_⟩
  · rw [completed, pulls]
    rfl
  · rw [responses, notSending, pulls]
    exact sent
  · rw [notSending, Bool.or_false]
    exact latest
  · rw [responses]
    exact fun k response => answers.advance_response i
  · intro wrNotRd pull sends
    obtain ⟨item, pushed, same⟩ := stream wrNotRd pull sends
    rw [responses]
    exact ⟨item, advance_pushes_getElem? a i pushed, same⟩

/-- A response is accepted. -/
theorem Answers.advance_send (answers : Answers a) (admits : a.Admits i) {wrNotRd pull : Bool}
    (sends : a.controller.state = sendState wrNotRd pull) (accepted : i.rspReady wrNotRd = true)
    (unread : (a.controller.rReady && i.rValid) = false)
    (silent : ¬ (a.advance i).controller.Sends)
    (notYet : (a.advance i).controller.reporting = false) : Answers (a.advance i) := by
  have completed := answers.completed
  have sent := answers.sent
  obtain ⟨fifoPull, reporting, sending⟩ := sends_eq sends
  have notSending := (not_sends_eq silent).2.1
  have responses : (a.advance i).history.responses =
      a.history.responses ++ [⟨wrNotRd, a.controller.rspData⟩] := by
    have recorded := record_responses_of_sends sends i
    rw [accepted, eventIf_true] at recorded
    exact recorded
  have pulls : (a.advance i).history.pulls = a.history.pulls + a.controller.fifoPull.toNat := rfl
  have completions := advance_completions_of_unread a unread
  obtain ⟨item, pushed, stream, status⟩ := answers.next_response sends
  rw [reporting] at completed
  rw [sending] at sent
  rw [fifoPull] at pulls
  refine ⟨?_, ?_, answers.advance_reported admits, ?_, ?_, ?_⟩
  · rw [completions, notYet, pulls]
    exact completed
  · rw [responses, notSending, pulls, List.length_append, List.length_singleton, ← sent]
    cases pull <;> rfl
  · rw [notYet, notSending]
    exact Bool.noConfusion
  · rw [responses]
    intro k response found
    rcases Nat.lt_or_ge k a.history.responses.length with earlier | last
    · rw [List.getElem?_append_left earlier] at found
      exact answers.advance_response i found
    · rw [List.getElem?_append_right last] at found
      obtain ⟨below, same⟩ := List.getElem?_eq_some_iff.mp found
      rw [List.length_singleton] at below
      rw [List.getElem_singleton] at same
      have place : k = a.history.responses.length := by omega
      rw [place]
      refine ⟨item, a.controller.access.regStatus, advance_pushes_getElem? a i pushed,
        advance_completions_getElem? a i status, ?_⟩
      rw [← same, stream]
      rfl
  · exact fun wrNotRd pull sends => absurd ⟨wrNotRd, pull, sends⟩ silent

/-- A response is held. -/
theorem Answers.advance_hold (answers : Answers a) (admits : a.Admits i) {wrNotRd pull : Bool}
    (sends : a.controller.state = sendState wrNotRd pull) (refused : i.rspReady wrNotRd = false)
    (unread : (a.controller.rReady && i.rValid) = false)
    (held : (a.advance i).controller.state = sendState wrNotRd false)
    (kept : (a.advance i).controller.access = a.controller.access) : Answers (a.advance i) := by
  have completed := answers.completed
  have sent := answers.sent
  obtain ⟨fifoPull, reporting, sending⟩ := sends_eq sends
  obtain ⟨-, reporting', sending'⟩ := sends_eq held
  have responses : (a.advance i).history.responses = a.history.responses := by
    have recorded := record_responses_of_sends sends i
    rw [refused, eventIf_false, List.append_nil] at recorded
    exact recorded
  have pulls : (a.advance i).history.pulls = a.history.pulls + a.controller.fifoPull.toNat := rfl
  have completions := advance_completions_of_unread a unread
  have latest := answers.latest (by rw [reporting, sending]; cases pull <;> rfl)
  rw [reporting] at completed
  rw [sending] at sent
  rw [fifoPull] at pulls
  refine ⟨?_, ?_, answers.advance_reported admits, ?_, ?_, ?_⟩
  · rw [completions, reporting', pulls]
    exact completed
  · rw [responses, sending', pulls, ← sent]
    cases pull <;> rfl
  · rw [completions, kept]
    exact fun _ => latest
  · rw [responses]
    exact fun k response => answers.advance_response i
  · intro wrNotRd' pull' sends'
    obtain ⟨item, pushed, stream⟩ := answers.stream wrNotRd pull sends
    rw [responses]
    refine ⟨item, advance_pushes_getElem? a i pushed, stream.trans ?_⟩
    exact (sendState_inj (held.symm.trans sends')).1

theorem Answers.advance (tracked : Tracked a finished) (control : Control a.controller)
    (queued : Queued a) (answers : Answers a) (admits : a.Admits i) : Answers (a.advance i) := by
  have completed := answers.completed
  have sent := answers.sent
  have answer : AnswerStep a.controller i (a.advance i).controller.state
    (a.advance i).controller.access := (main_step control i).answer
  obtain ⟨state, stateEq⟩ : ∃ state, (a.advance i).controller.state = state := ⟨_, rfl⟩
  obtain ⟨access, accessEq⟩ : ∃ access, (a.advance i).controller.access = access := ⟨_, rfl⟩
  rw [stateEq, accessEq] at answer
  cases answer with
  | none state access silent notYet unread after uncaptured =>
    have silent' := not_sends_of_state stateEq after
    have notYet' : (a.advance i).controller.reporting = false := by
      rw [reporting_eq silent', stateEq, accessEq]
      by_cases reads : state = .readStatus
      · rw [uncaptured reads, Bool.and_false, Bool.false_and]
      · rw [decide_eq_false reads, Bool.false_and, Bool.false_and]
    refine answers.advance_silent admits silent (not_sends_eq silent').2.1 ?_ ?_ ?_
    · rw [advance_completions_of_unread a unread, completed, notYet, notYet']
    · rw [notYet']
      exact Bool.noConfusion
    · exact fun wrNotRd pull sends => absurd ⟨wrNotRd, pull, sends⟩ silent'
  | capture r silent notYet read captured =>
    have silent' := not_sends_of_state stateEq (ne_sendState (Or.inr (Or.inl rfl)))
    have reporting' : (a.advance i).controller.reporting = bit i.rData 0 := by
      rw [reporting_eq silent', stateEq, accessEq, captured]
      rfl
    have completions := advance_completions_of_read a read
    refine answers.advance_silent admits silent (not_sends_eq silent').2.1 ?_ ?_ ?_
    · rw [completions, reporting', List.length_append, completed, notYet]
      cases bit i.rData 0 <;> rfl
    · rw [reporting', completions, accessEq]
      intro news
      rw [news, eventIf_true, List.getLast?_concat]
    · exact fun wrNotRd pull sends => absurd ⟨wrNotRd, pull, sends⟩ silent'
  | acknowledge r reads before unread captured =>
    have silent := not_sends_of_state reads (ne_sendState (Or.inr (Or.inl rfl)))
    have silent' := not_sends_of_state stateEq (ne_sendState (Or.inr (Or.inl rfl)))
    have reporting' : (a.advance i).controller.reporting = a.controller.reporting := by
      rw [reporting_eq silent, reporting_eq silent', stateEq, accessEq, captured, reads, before]
    have completions := advance_completions_of_unread a unread
    refine answers.advance_silent admits silent (not_sends_eq silent').2.1 ?_ ?_ ?_
    · rw [completions, reporting']
      exact completed
    · rw [reporting', completions, accessEq]
      intro reporting
      exact answers.latest (by rw [reporting, Bool.true_or])
    · exact fun wrNotRd pull sends => absurd ⟨wrNotRd, pull, sends⟩ silent'
  | complete wrNotRd reads before unread news stream =>
    have silent := not_sends_of_state reads (ne_sendState (Or.inr (Or.inl rfl)))
    obtain ⟨-, reporting', notSending'⟩ := sends_eq stateEq
    have reporting : a.controller.reporting = true := by
      rw [reporting_eq silent, before, reads, news]
      rfl
    have completions := advance_completions_of_unread a unread
    have head := queued.contents 0 (answers.nonempty tracked queued reporting)
    refine answers.advance_silent admits silent notSending' ?_ ?_ ?_
    · rw [completions, reporting', ← reporting]
      exact completed
    · rw [completions, accessEq]
      exact fun _ => answers.latest (by rw [reporting, Bool.true_or])
    · intro wrNotRd' pull' sends
      rw [(not_sends_eq silent).2.1, Bool.toNat_false, Nat.add_zero] at sent
      rw [waiting, List.getElem?_drop, Nat.add_zero, ← sent] at head
      exact ⟨_, head, stream.trans (sendState_inj (stateEq.symm.trans sends)).1⟩
  | send wrNotRd pull sends accepted unread free =>
    have silent' := not_sends_of_state stateEq (ne_sendState (Or.inr (Or.inl rfl)))
    refine answers.advance_send admits sends accepted unread silent' ?_
    apply reporting_of_uncaptured silent'
    rw [accessEq, free]
    rfl
  | hold wrNotRd pull sends refused unread =>
    exact answers.advance_hold admits sends refused unread stateEq accessEq

end Arbiter

end MetalFs.Fpga
