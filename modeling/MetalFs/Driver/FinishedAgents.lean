import MetalFs.Driver.Server

/-!
# Messages to agents that have finished

An agent that has got a `ProcessingResponse` with `eof` leaves its loop.  The server should
send it nothing more, and has a flag for it: `reset` does not turn a terminated agent away.
But only `AgentDataSinkContext::finalize` sets the flag, so that the other agents of a
pipeline are sent an invalid `RegistrationResponse` after their last message.

`run_leftAlone_iff` says which runs of the server are free of that: those in which each
pipeline that is run has a single agent, or fails before its source gets the last response.
-/

namespace MetalFs.Driver.Requests

open Interrupt Runs

/-- No message follows a `ProcessingResponse` with `eof` to the same agent. -/
def LeftAlone (sent : List (AgentRef × ServerMessage)) : Prop :=
  sent.Pairwise fun message later => message.2 = .processingResponse true → later.1 ≠ message.1

/-- The agent has got its last response. -/
def Server.Finished (server : Server) (agent : AgentRef) : Prop :=
  (agent, .processingResponse true) ∈ server.sent

/-! ## The calls before the last response of the source -/

/-- The calls of a round. -/
def roundCalls (round : Nat) : List Call :=
  [.configureSource round, .configureSink round, .runPipeline round, .finalizeSource round,
    .finalizeSink round]

/-- The calls of the last round up to the response of the source. -/
def lastCalls (round : Nat) : List Call :=
  [.configureSource round, .configureSink round, .runPipeline round, .finalizeSource round]

def callsBeforeResponse (env : Environment) (pipelineAgents : List AgentRef)
    (source sink : AgentRef) : List Call :=
  [.configure] ++ pipelineAgents.map .acceptAgent ++
    ([.establishContexts] ++ (idleAgents pipelineAgents source sink).map .receiveReady ++
      ((List.range' 0 env.earlierRounds).flatMap roundCalls ++ lastCalls env.earlierRounds))

/-- One of these calls throws. -/
def Interrupted (env : Environment) (pipelineAgents : List AgentRef) : Prop :=
  ∃ source ∈ pipelineAgents.head?, ∃ sink ∈ pipelineAgents.getLast?,
    ∃ call ∈ callsBeforeResponse env pipelineAgents source sink, env.failure call ≠ none

/-- The pipeline that the request completes. -/
def Server.completes (server : Server) (env : Environment) : Option (List AgentRef) := do
  let request ← env.request
  let (found, agents) ←
    (server.agents.registerAgent env.linkOrder request).containsValidPipeline env.searchOrder env.fuel
  if found then some agents.cachedPipeline else none

/-- A pipeline that the request completes has a single agent, or is interrupted before its
source gets the last response. -/
def EndsQuietly (server : Server) (env : Environment) : Prop :=
  ∀ pipelineAgents ∈ server.completes env,
    pipelineAgents.length = 1 ∨ Interrupted env pipelineAgents

/-! ## Up to the last response of the source -/

/-- Only messages other than the last one are sent, to agents of the pipeline. -/
def Quiet (pipelineAgents : List AgentRef) (server server' : Server) : Prop :=
  server'.agents = server.agents ∧ ∃ messages, server'.sent = server.sent ++ messages ∧
    ∀ message ∈ messages, message.1 ∈ pipelineAgents ∧ message.2 ≠ .processingResponse true

section Quiet

variable {env : Environment} {pipelineAgents : List AgentRef} {source sink agent : AgentRef}
  {message : ServerMessage} {s s' s'' : Server} {round : Nat}

theorem Quiet.trans (first : Quiet pipelineAgents s s') (second : Quiet pipelineAgents s' s'') :
    Quiet pipelineAgents s s'' := by
  rcases first with ⟨agents₁, messages₁, sent₁, quiet₁⟩
  rcases second with ⟨agents₂, messages₂, sent₂, quiet₂⟩
  refine ⟨agents₂.trans agents₁, messages₁ ++ messages₂, ?_, ?_⟩
  · rw [sent₂, sent₁, List.append_assoc]
  · intro message isIn
    rcases List.mem_append.mp isIn with early | late
    · exact quiet₁ message early
    · exact quiet₂ message late

instance : Std.Refl (Quiet pipelineAgents) where
  refl _ := ⟨rfl, [], (List.append_nil _).symm, fun _ isIn => absurd isIn List.not_mem_nil⟩

instance : IsTrans Server (Quiet pipelineAgents) where
  trans _ _ _ := Quiet.trans

theorem Quiet.send (isIn : agent ∈ pipelineAgents) (notLast : message ≠ .processingResponse true)
    (s : Server) : Quiet pipelineAgents s (s.send agent message) := by
  refine ⟨rfl, [(agent, message)], rfl, ?_⟩
  intro sent isSent
  rw [List.mem_singleton.mp isSent]
  exact ⟨isIn, notLast⟩

theorem not_last : ServerMessage.processingResponse false ≠ .processingResponse true := by
  intro same
  cases same

/-- A call that is followed by a message other than the last one. -/
theorem performs_send (call : Call) (isIn : agent ∈ pipelineAgents)
    (notLast : message ≠ .processingResponse true) :
    Performs env.failure (Quiet pipelineAgents) [call] (do
      perform env.failure call
      modify (Server.send agent message)) :=
  Performs.bind (Performs.perform call)
    (Performs.modify (Quiet.send isIn notLast))

theorem performs_pure (x : ServerM Unit) (returns : x = pure ()) :
    Performs env.failure (Quiet pipelineAgents) [] x := by
  rw [returns]
  exact Leads.refl _

theorem performs_configure :
    Performs env.failure (Quiet pipelineAgents) ([.configure] ++ pipelineAgents.map .acceptAgent)
      (configure env pipelineAgents) := by
  refine Performs.bind (Performs.perform _) ?_
  refine Performs.forM fun agent isIn => ?_
  refine performs_send (.acceptAgent agent) isIn ?_
  intro same
  cases same

theorem performs_finalizeSource_false (isIn : source ∈ pipelineAgents) (singleStage : Bool) :
    Performs env.failure (Quiet pipelineAgents) [.finalizeSource round]
      (finalizeSource env source singleStage round false) := by
  refine Performs.bind (Performs.perform _) ?_
  split_ifs
  · exact Performs.modify (Quiet.send isIn not_last)
  · exact performs_pure _ rfl

theorem performs_finalizeSink_false (isIn : sink ∈ pipelineAgents) (singleStage : Bool) :
    Performs env.failure (Quiet pipelineAgents) [.finalizeSink round]
      (finalizeSink env sink singleStage round false) := by
  refine Performs.bind (Performs.perform _) ?_
  split_ifs with responds last
  · exact last.elim
  · exact Performs.bind (Performs.modify (Quiet.send isIn not_last)) (performs_pure _ rfl)
  · exact performs_pure _ rfl

theorem performs_runRound_false (isSource : source ∈ pipelineAgents) (isSink : sink ∈ pipelineAgents) :
    Performs env.failure (Quiet pipelineAgents) (roundCalls round)
      (runRound env source sink round false) := by
  refine Performs.bind (Performs.perform (Call.configureSource round)) ?_
  refine Performs.bind (Performs.perform (Call.configureSink round)) ?_
  refine Performs.bind (Performs.perform (Call.runPipeline round)) ?_
  refine Performs.bind (performs_finalizeSource_false isSource _) ?_
  exact performs_finalizeSink_false isSink _

/-- What is left of the last round after the calls of `lastCalls`. -/
def lastResponses (env : Environment) (source sink : AgentRef) (round : Nat) : ServerM Unit :=
  (if (true || env.inputBuffer) && !(source == sink) then
    modify (Server.send source (.processingResponse true))
  else pure ()) >>= fun _ => finalizeSink env sink (source == sink) round true

theorem leads_runRound_true :
    Leads env.failure (Quiet pipelineAgents) (lastCalls round)
      (runRound env source sink round true) (lastResponses env source sink round) := by
  refine Performs.bind (Performs.perform (Call.configureSource round)) ?_
  refine Performs.bind (Performs.perform (Call.configureSink round)) ?_
  refine Performs.bind (Performs.perform (Call.runPipeline round)) ?_
  refine Leads.bind ?_
  exact Performs.bind (Performs.perform (Call.finalizeSource round))
    (Leads.refl _)

theorem leads_runRounds (isSource : source ∈ pipelineAgents) (isSink : sink ∈ pipelineAgents)
    (earlierRounds : Nat) :
    Leads env.failure (Quiet pipelineAgents)
      ((List.range' round earlierRounds).flatMap roundCalls ++ lastCalls (round + earlierRounds))
      (runRounds env source sink earlierRounds round)
      (lastResponses env source sink (round + earlierRounds)) := by
  induction earlierRounds generalizing round with
  | zero => exact leads_runRound_true
  | succ earlierRounds ih =>
    have rest := @ih (round + 1)
    rw [show round + 1 + earlierRounds = round + (earlierRounds + 1) by omega] at rest
    rw [List.range'_succ, List.flatMap_cons, List.append_assoc]
    exact Performs.bind (performs_runRound_false isSource isSink) rest

/-- What is left of the run after the calls of `callsBeforeResponse`. -/
def conclude (env : Environment) (pipelineAgents : List AgentRef) (source sink : AgentRef) :
    ServerM Unit := do
  lastResponses env source sink env.earlierRounds
  (idleAgents pipelineAgents source sink).forM fun agent => do
    perform env.failure (.respond agent)
    modify (Server.send agent (.processingResponse true))

theorem leads_runConfigured (isSource : source ∈ pipelineAgents) (isSink : sink ∈ pipelineAgents) :
    Leads env.failure (Quiet pipelineAgents) (callsBeforeResponse env pipelineAgents source sink)
      (runConfigured env pipelineAgents source sink) (conclude env pipelineAgents source sink) := by
  have rounds : Leads env.failure (Quiet pipelineAgents)
      ((List.range' 0 env.earlierRounds).flatMap roundCalls ++ lastCalls env.earlierRounds)
      (runRounds env source sink env.earlierRounds 0)
      (lastResponses env source sink env.earlierRounds) := by
    have all := @leads_runRounds env pipelineAgents source sink 0 isSource isSink env.earlierRounds
    rwa [Nat.zero_add] at all
  have ready : Performs env.failure (Quiet pipelineAgents)
      ((idleAgents pipelineAgents source sink).map .receiveReady)
      ((idleAgents pipelineAgents source sink).forM fun agent =>
        perform env.failure (.receiveReady agent)) := by
    exact Performs.forM fun agent _ => Performs.perform _
  refine Performs.bind performs_configure ?_
  rw [List.append_assoc]
  refine Performs.bind (Performs.perform Call.establishContexts) ?_
  exact Performs.bind ready (Leads.bind rounds)

end Quiet

/-! ## Messages that keep finished agents alone -/

section Messages

variable {sent messages : List (AgentRef × ServerMessage)} {agent other : AgentRef}
  {message : ServerMessage} {s s' : Server} {order pipelineAgents : List AgentRef}

theorem LeftAlone.of_append (leftAlone : LeftAlone (sent ++ messages)) : LeftAlone sent :=
  (List.pairwise_append.mp leftAlone).1

theorem leftAlone_concat :
    LeftAlone (sent ++ [(agent, message)]) ↔
      LeftAlone sent ∧ (agent, .processingResponse true) ∉ sent := by
  rw [LeftAlone, List.pairwise_append]
  constructor
  · rintro ⟨before, -, later⟩
    refine ⟨before, fun finished => ?_⟩
    exact later _ finished _ (List.mem_singleton_self _) rfl rfl
  · rintro ⟨before, unfinished⟩
    refine ⟨before, List.pairwise_singleton _ _, ?_⟩
    rintro ⟨agent', message'⟩ isSent last isLast finished same
    rw [List.mem_singleton.mp isLast] at same
    cases same
    cases finished
    exact unfinished isSent

/-- An agent that has got its last response and then another message. -/
theorem not_leftAlone_of_mem (isSent : (agent, message) ∈ messages) :
    ¬ LeftAlone (sent ++ [(agent, .processingResponse true)] ++ messages) := by
  intro leftAlone
  have later := (List.pairwise_append.mp leftAlone).2.2 (agent, .processingResponse true)
    (List.mem_append_right _ (List.mem_singleton_self _)) (agent, message) isSent rfl
  exact later rfl

theorem Quiet.finished_iff (quiet : Quiet pipelineAgents s s') :
    s'.Finished agent ↔ s.Finished agent := by
  rcases quiet with ⟨-, messages, sent, notLast⟩
  rw [Server.Finished, Server.Finished, sent, List.mem_append]
  refine ⟨fun isSent => ?_, .inl⟩
  rcases isSent with before | isNew
  · exact before
  · exact absurd rfl (notLast _ isNew).2

theorem Quiet.leftAlone (quiet : Quiet pipelineAgents s s') (leftAlone : LeftAlone s.sent)
    (unfinished : ∀ agent ∈ pipelineAgents, ¬ s.Finished agent) : LeftAlone s'.sent := by
  rcases quiet with ⟨-, messages, sent, notLast⟩
  rw [sent]
  refine List.pairwise_append.mpr ⟨leftAlone, ?_, ?_⟩
  · refine List.pairwise_of_forall_mem_list fun first isFirst later _ last => ?_
    exact absurd last (notLast first isFirst).2
  · rintro ⟨agent, message⟩ isSent later isLater last same
    cases last
    have toAgent : later.1 = agent := same
    refine unfinished agent ?_ isSent
    rw [← toAgent]
    exact (notLast later isLater).1

/-! ## Agents that are turned away -/

/-- The text that an agent is turned away with. -/
def invalidMessage (s : Server) (agent : AgentRef) : ServerMessage :=
  .registrationResponse false (if (s.agents.agents agent).error ≠ "" then (s.agents.agents agent).error
    else "An invalid operator chain was specified.\n")

theorem sendRegistrationInvalid_sent :
    (s.sendRegistrationInvalid agent).sent = s.sent ++ [(agent, invalidMessage s agent)] := rfl

theorem sendRegistrationInvalid_finished_iff :
    (s.sendRegistrationInvalid agent).Finished other ↔ s.Finished other := by
  rw [Server.Finished, sendRegistrationInvalid_sent, List.mem_append, List.mem_singleton]
  refine ⟨fun isSent => isSent.resolve_right fun same => ?_, .inl⟩
  cases same

theorem sendRegistrationInvalid_terminated :
    ((s.sendRegistrationInvalid agent).agents.agents other).terminated =
      if other = agent then true else (s.agents.agents other).terminated := by
  change (Function.update s.agents.agents agent _ other).terminated = _
  by_cases same : other = agent
  · rw [if_pos same, same, Function.update_self]
    rfl
  · rw [if_neg same, Function.update_of_ne same]

/-- Turning agents away keeps the finished ones alone, if none of these is among them. -/
theorem foldl_sendRegistrationInvalid (unfinished : ∀ agent ∈ order, ¬ s.Finished agent) :
    ∃ messages, (order.foldl Server.sendRegistrationInvalid s).sent = s.sent ++ messages ∧
      (∀ message ∈ messages, message.1 ∈ order) ∧
      (LeftAlone s.sent → LeftAlone (order.foldl Server.sendRegistrationInvalid s).sent) ∧
      (∀ other, (order.foldl Server.sendRegistrationInvalid s).Finished other ↔ s.Finished other) ∧
      (∀ other ∉ order,
        ((order.foldl Server.sendRegistrationInvalid s).agents.agents other).terminated =
          (s.agents.agents other).terminated) ∧
      (order.foldl Server.sendRegistrationInvalid s).agents.pipelineAgents =
        s.agents.pipelineAgents ∧
      (order.foldl Server.sendRegistrationInvalid s).agents.constructed = s.agents.constructed := by
  induction order generalizing s with
  | nil =>
    exact ⟨[], (List.append_nil _).symm, fun _ isIn => absurd isIn List.not_mem_nil, id,
      fun _ => Iff.rfl, fun _ _ => rfl, rfl, rfl⟩
  | cons agent order ih =>
    rw [List.forall_mem_cons] at unfinished
    have unfinished' : ∀ x ∈ order, ¬ (s.sendRegistrationInvalid agent).Finished x := by
      intro x isIn finished
      exact unfinished.2 x isIn (sendRegistrationInvalid_finished_iff.mp finished)
    rcases ih unfinished' with
      ⟨messages, sent, addressed, leftAlone, finished, terminated, pipeline, constructed⟩
    refine ⟨(agent, invalidMessage s agent) :: messages, ?_, ?_, ?_, ?_, ?_, pipeline, constructed⟩
    · rw [List.foldl_cons, sent, sendRegistrationInvalid_sent, List.append_assoc]
      rfl
    · intro message isIn
      rcases List.mem_cons.mp isIn with rfl | later
      · exact List.mem_cons_self
      · exact List.mem_cons_of_mem _ (addressed message later)
    · intro before
      exact leftAlone (leftAlone_concat.mpr ⟨before, unfinished.1⟩)
    · intro other
      exact (finished other).trans sendRegistrationInvalid_finished_iff
    · intro other notIn
      rw [List.mem_cons, not_or] at notIn
      rw [List.foldl_cons, terminated other notIn.2, sendRegistrationInvalid_terminated,
        if_neg notIn.1]

theorem resetAgent_sent : ∃ messages, (s.resetAgent agent).sent = s.sent ++ messages ∧
    ∀ message ∈ messages, message.1 = agent := by
  unfold Server.resetAgent
  split_ifs
  · exact ⟨[], (List.append_nil _).symm, fun _ isIn => absurd isIn List.not_mem_nil⟩
  · refine ⟨_, sendRegistrationInvalid_sent, fun message isIn => ?_⟩
    rw [List.mem_singleton.mp isIn]

theorem resetAgent_constructed :
    (s.resetAgent agent).agents.constructed = s.agents.constructed := by
  unfold Server.resetAgent
  split_ifs
  · rfl
  · rfl

theorem foldl_resetAgent_constructed :
    (order.foldl Server.resetAgent s).agents.constructed = s.agents.constructed := by
  induction order generalizing s with
  | nil => rfl
  | cons agent order ih => rw [List.foldl_cons, ih, resetAgent_constructed]

theorem foldl_resetAgent_sent : ∃ messages,
    (order.foldl Server.resetAgent s).sent = s.sent ++ messages ∧
      ∀ message ∈ messages, message.1 ∈ order := by
  induction order generalizing s with
  | nil => exact ⟨[], (List.append_nil _).symm, fun _ isIn => absurd isIn List.not_mem_nil⟩
  | cons agent order ih =>
    rcases @resetAgent_sent agent s with ⟨first, sent₁, addressed₁⟩
    rcases @ih (s.resetAgent agent) with ⟨rest, sent₂, addressed₂⟩
    refine ⟨first ++ rest, ?_, ?_⟩
    · rw [List.foldl_cons, sent₂, sent₁, List.append_assoc]
    · intro message isIn
      rcases List.mem_append.mp isIn with early | late
      · rw [addressed₁ message early]
        exact List.mem_cons_self
      · exact List.mem_cons_of_mem _ (addressed₂ message late)

/-- `reset` keeps the finished agents alone that are marked as terminated. -/
theorem foldl_resetAgent_leftAlone (leftAlone : LeftAlone s.sent)
    (terminated : ∀ agent, s.Finished agent → agent ∈ order →
      (s.agents.agents agent).terminated) :
    LeftAlone (order.foldl Server.resetAgent s).sent := by
  induction order generalizing s with
  | nil => exact leftAlone
  | cons agent order ih =>
    rw [List.foldl_cons, Server.resetAgent]
    split_ifs with isTerminated
    · refine ih leftAlone fun other finished isIn => ?_
      exact terminated other finished (List.mem_cons_of_mem _ isIn)
    · have unfinished : ¬ s.Finished agent := fun finished =>
        isTerminated (terminated agent finished List.mem_cons_self)
      refine ih (leftAlone_concat.mpr ⟨leftAlone, unfinished⟩) fun other finished isIn => ?_
      have before := sendRegistrationInvalid_finished_iff.mp finished
      rw [sendRegistrationInvalid_terminated]
      split_ifs
      · rfl
      · exact terminated other before (List.mem_cons_of_mem _ isIn)

theorem reset_sent (s : Server) :
    (s.reset []).sent = (s.agents.pipelineAgents.foldl Server.resetAgent s).sent := rfl

end Messages

/-! ## The run of one pipeline -/

/-- Messages are sent to agents of the pipeline, and at most the sink becomes terminated. -/
def Grows (pipelineAgents : List AgentRef) (sink : AgentRef) (s s' : Server) : Prop :=
  (∃ messages, s'.sent = s.sent ++ messages ∧ ∀ message ∈ messages, message.1 ∈ pipelineAgents) ∧
    s'.agents.pipelineAgents = s.agents.pipelineAgents ∧
    s'.agents.registeredAgents = s.agents.registeredAgents ∧
    s'.agents.constructed = s.agents.constructed ∧
    ∀ agent ≠ sink, (s'.agents.agents agent).terminated = (s.agents.agents agent).terminated

section Run

variable {env : Environment} {pipelineAgents : List AgentRef} {source sink agent : AgentRef}
  {message : ServerMessage} {s s' s'' : Server} {round : Nat}

theorem Grows.trans (first : Grows pipelineAgents sink s s')
    (second : Grows pipelineAgents sink s' s'') : Grows pipelineAgents sink s s'' := by
  rcases first with ⟨⟨messages₁, sent₁, addressed₁⟩, pipeline₁, registered₁, constructed₁, terminated₁⟩
  rcases second with ⟨⟨messages₂, sent₂, addressed₂⟩, pipeline₂, registered₂, constructed₂, terminated₂⟩
  refine ⟨⟨messages₁ ++ messages₂, ?_, ?_⟩, pipeline₂.trans pipeline₁,
    registered₂.trans registered₁, constructed₂.trans constructed₁, ?_⟩
  · rw [sent₂, sent₁, List.append_assoc]
  · intro message isIn
    rcases List.mem_append.mp isIn with early | late
    · exact addressed₁ message early
    · exact addressed₂ message late
  · intro agent apart
    rw [terminated₂ agent apart, terminated₁ agent apart]

instance : Std.Refl (Grows pipelineAgents sink) where
  refl _ := ⟨⟨[], (List.append_nil _).symm, fun _ isIn => absurd isIn List.not_mem_nil⟩, rfl, rfl,
    rfl, fun _ _ => rfl⟩

instance : IsTrans Server (Grows pipelineAgents sink) where
  trans _ _ _ := Grows.trans

theorem Quiet.grows (quiet : Quiet pipelineAgents s s') : Grows pipelineAgents sink s s' := by
  rcases quiet with ⟨agents, messages, sent, notLast⟩
  refine ⟨⟨messages, sent, fun message isIn => (notLast message isIn).1⟩, ?_⟩
  rw [agents]
  exact ⟨rfl, rfl, rfl, fun _ _ => rfl⟩

theorem Grows.send (isIn : agent ∈ pipelineAgents) (s : Server) :
    Grows pipelineAgents sink s (s.send agent message) := by
  refine ⟨⟨[(agent, message)], rfl, fun sent isSent => ?_⟩, rfl, rfl, rfl, fun _ _ => rfl⟩
  rw [List.mem_singleton.mp isSent]
  exact isIn

theorem Grows.setTerminated (s : Server) : Grows pipelineAgents sink s (s.setTerminated sink) := by
  refine ⟨⟨[], (List.append_nil _).symm, fun _ isIn => absurd isIn List.not_mem_nil⟩, rfl, rfl, rfl, ?_⟩
  intro agent apart
  change (Function.update s.agents.agents sink _ agent).terminated = _
  rw [Function.update_of_ne apart]

theorem grows_finalizeSink (isSink : sink ∈ pipelineAgents) (singleStage : Bool) :
    Performs env.failure (Grows pipelineAgents sink) [.finalizeSink round]
      (finalizeSink env sink singleStage round true) := by
  refine Performs.bind (Performs.perform _) ?_
  split_ifs with responds last
  · exact Performs.bind (Performs.modify (Grows.send isSink)) (Performs.modify Grows.setTerminated)
  · exact absurd rfl last
  · exact Leads.refl _

theorem grows_respond :
    Performs env.failure (Grows pipelineAgents sink)
      ((idleAgents pipelineAgents source sink).map .respond)
      ((idleAgents pipelineAgents source sink).forM fun agent => do
        perform env.failure (.respond agent)
        modify (Server.send agent (.processingResponse true))) := by
  refine Performs.forM fun agent isIdle => ?_
  exact Performs.bind (Performs.perform (Call.respond agent))
    (Performs.modify (Grows.send (List.mem_of_mem_filter isIdle)))

theorem grows_conclude (isSource : source ∈ pipelineAgents) (isSink : sink ∈ pipelineAgents)
    (s : Server) :
    Grows pipelineAgents sink s (final (conclude env pipelineAgents source sink s)) := by
  have first : Performs env.failure (Grows pipelineAgents sink) []
      (if (true || env.inputBuffer) && !(source == sink) then
        modify (Server.send source (.processingResponse true))
      else pure ()) := by
    split_ifs
    · exact Performs.modify (Grows.send isSource)
    · exact Leads.refl _
  have all : Performs env.failure (Grows pipelineAgents sink)
      ([.finalizeSink env.earlierRounds] ++ (idleAgents pipelineAgents source sink).map .respond)
      (conclude env pipelineAgents source sink) :=
    Performs.bind (Performs.bind first (grows_finalizeSink isSink _)) grows_respond
  exact all.final s

theorem grows_runConfigured (isSource : source ∈ pipelineAgents) (isSink : sink ∈ pipelineAgents)
    (s : Server) :
    Grows pipelineAgents sink s (final (runConfigured env pipelineAgents source sink s)) := by
  rcases leads_runConfigured isSource isSink s with ⟨s₁, quiet, goesOn, throws⟩
  by_cases interrupted :
      ∃ call ∈ callsBeforeResponse env pipelineAgents source sink, env.failure call ≠ none
  · rcases throws interrupted with ⟨e, thrown⟩
    rw [thrown]
    exact quiet.grows
  · push Not at interrupted
    rw [goesOn interrupted]
    exact quiet.grows.trans (grows_conclude isSource isSink s₁)

/-- The handlers change nothing but a text. -/
theorem grows_handle (result : EStateM.Result Exception Server Unit) :
    (Server.handle result).sent = (final result).sent ∧
      (Server.handle result).agents.pipelineAgents = (final result).agents.pipelineAgents ∧
      (Server.handle result).agents.registeredAgents = (final result).agents.registeredAgents ∧
      (Server.handle result).agents.constructed = (final result).agents.constructed ∧
      ∀ agent, ((Server.handle result).agents.agents agent).terminated =
        ((final result).agents.agents agent).terminated := by
  rcases result with ⟨_, s⟩ | ⟨⟨client, what⟩ | _, s⟩
  · exact ⟨rfl, rfl, rfl, rfl, fun _ => rfl⟩
  · refine ⟨rfl, rfl, rfl, rfl, fun agent => ?_⟩
    change (Function.update s.agents.agents client _ agent).terminated = _
    by_cases same : agent = client
    · rw [same, Function.update_self]
      rfl
    · rw [Function.update_of_ne same]
      rfl
  · exact ⟨rfl, rfl, rfl, rfl, fun _ => rfl⟩

/-- After a run without finished agents other than terminated ones `reset` leaves them alone. -/
theorem reset_leftAlone {result : EStateM.Result Exception Server Unit}
    (leftAlone : LeftAlone (final result).sent)
    (terminated : ∀ agent ∈ (final result).agents.pipelineAgents, (final result).Finished agent →
      ((final result).agents.agents agent).terminated) :
    LeftAlone ((Server.handle result).reset []).sent := by
  rcases grows_handle result with ⟨sent, pipeline, -, -, flags⟩
  rw [reset_sent, pipeline]
  refine foldl_resetAgent_leftAlone (by rwa [sent]) fun agent finished isIn => ?_
  rw [Server.Finished, sent] at finished
  rw [flags]
  exact terminated agent isIn finished

/-- The only agent of a pipeline gets the last response from the sink's context. -/
theorem conclude_single (agent : AgentRef) (s : Server) :
    (∃ e, conclude env [agent] agent agent s = .error e s) ∨
      conclude env [agent] agent agent s =
        .ok () ((s.send agent (.processingResponse true)).setTerminated agent) := by
  have idle : idleAgents [agent] agent agent = [] := by
    rw [idleAgents, List.filter_singleton]
    simp
  rw [conclude, idle, lastResponses, beq_self_eq_true, Bool.not_true, Bool.and_false]
  rcases thrown : env.failure (.finalizeSink env.earlierRounds) with _ | e
  · refine .inr ?_
    simp only [Bool.false_eq_true, if_false, finalizeSink, perform, thrown, Bool.true_or, if_true]
    rfl
  · refine .inl ⟨e, ?_⟩
    simp only [Bool.false_eq_true, if_false, finalizeSink, perform, thrown]
    rfl

theorem leftAlone_of_single (leftAlone : LeftAlone s.sent) (unfinished : ¬ s.Finished agent)
    (isPipeline : s.agents.pipelineAgents = [agent]) :
    LeftAlone ((Server.handle (runConfigured env [agent] agent agent s)).reset []).sent := by
  have isIn : agent ∈ [agent] := List.mem_singleton_self agent
  rcases @leads_runConfigured env [agent] agent agent isIn isIn s with ⟨s₁, quiet, goesOn, throws⟩
  have leftAlone₁ : LeftAlone s₁.sent := quiet.leftAlone leftAlone (by simpa using unfinished)
  have unfinished₁ : ¬ s₁.Finished agent := fun finished => unfinished (quiet.finished_iff.mp finished)
  have pipeline₁ : s₁.agents.pipelineAgents = [agent] := by rw [quiet.1, isPipeline]
  have interruptedCase : ∀ e, LeftAlone ((Server.handle (.error e s₁)).reset []).sent := by
    intro e
    refine reset_leftAlone leftAlone₁ fun other isOther finished => ?_
    change other ∈ s₁.agents.pipelineAgents at isOther
    rw [pipeline₁] at isOther
    rw [List.mem_singleton.mp isOther] at finished
    exact absurd finished unfinished₁
  by_cases interrupted : ∃ call ∈ callsBeforeResponse env [agent] agent agent, env.failure call ≠ none
  · rcases throws interrupted with ⟨e, thrown⟩
    rw [thrown]
    exact interruptedCase e
  · push Not at interrupted
    rw [goesOn interrupted]
    rcases @conclude_single env agent s₁ with ⟨e, thrown⟩ | returned
    · rw [thrown]
      exact interruptedCase e
    · rw [returned]
      refine reset_leftAlone (leftAlone_concat.mpr ⟨leftAlone₁, unfinished₁⟩) ?_
      intro other isOther _
      change other ∈ s₁.agents.pipelineAgents at isOther
      rw [pipeline₁] at isOther
      rw [List.mem_singleton.mp isOther]
      change (Function.update s₁.agents.agents agent _ agent).terminated = true
      rw [Function.update_self]
      rfl

theorem leftAlone_of_interrupted (isSource : source ∈ pipelineAgents)
    (isSink : sink ∈ pipelineAgents) (leftAlone : LeftAlone s.sent)
    (unfinished : ∀ agent ∈ pipelineAgents, ¬ s.Finished agent)
    (isPipeline : s.agents.pipelineAgents = pipelineAgents)
    (interrupted :
      ∃ call ∈ callsBeforeResponse env pipelineAgents source sink, env.failure call ≠ none) :
    LeftAlone ((Server.handle (runConfigured env pipelineAgents source sink s)).reset []).sent := by
  rcases leads_runConfigured isSource isSink s with ⟨s₁, quiet, -, throws⟩
  rcases throws interrupted with ⟨e, thrown⟩
  rw [thrown]
  refine reset_leftAlone (quiet.leftAlone leftAlone unfinished) fun other isOther finished => ?_
  change other ∈ s₁.agents.pipelineAgents at isOther
  rw [quiet.1, isPipeline] at isOther
  exact absurd (quiet.finished_iff.mp finished) (unfinished other isOther)

/-- `reset` turns a source other than the sink away that has got its last response. -/
theorem not_leftAlone_of_grows {rest : List AgentRef}
    {result : EStateM.Result Exception Server Unit}
    (grows : Grows (source :: rest) sink (s.send source (.processingResponse true)) (final result))
    (apart : source ≠ sink) (alive : (s.agents.agents source).terminated = false)
    (isPipeline : s.agents.pipelineAgents = source :: rest) :
    ¬ LeftAlone ((Server.handle result).reset []).sent := by
  rcases grows with ⟨⟨messages, sent, -⟩, pipeline, -, -, flags⟩
  rcases grows_handle result with ⟨sent', pipeline', -, -, flags'⟩
  have alive' : ((Server.handle result).agents.agents source).terminated = false := by
    rw [flags', flags source apart]
    exact alive
  have turnedAway : (Server.handle result).resetAgent source =
      (Server.handle result).sendRegistrationInvalid source := by
    rw [Server.resetAgent, alive']
    exact if_neg Bool.false_ne_true
  rcases @foldl_resetAgent_sent ((Server.handle result).resetAgent source) rest with ⟨later, sent'', -⟩
  rw [reset_sent, pipeline', pipeline, show (s.send source _).agents.pipelineAgents = _ from isPipeline,
    List.foldl_cons, sent'', turnedAway, sendRegistrationInvalid_sent, sent', sent, Server.send,
    List.append_assoc, List.append_assoc]
  exact not_leftAlone_of_mem (List.mem_append_right _ (List.mem_append_left _
    (List.mem_singleton_self _)))

/-- A source other than the sink is turned away after its last response. -/
theorem not_leftAlone_of_source {rest : List AgentRef} (isSink : sink ∈ source :: rest)
    (apart : source ≠ sink) (alive : (s.agents.agents source).terminated = false)
    (isPipeline : s.agents.pipelineAgents = source :: rest)
    (returns :
      ∀ call ∈ callsBeforeResponse env (source :: rest) source sink, env.failure call = none) :
    ¬ LeftAlone ((Server.handle (runConfigured env (source :: rest) source sink s)).reset []).sent := by
  have isSource : source ∈ source :: rest := List.mem_cons_self
  rcases leads_runConfigured isSource isSink s with ⟨s₁, quiet, goesOn, -⟩
  rw [goesOn returns]
  -- The first message of the rest is the source's last response.
  have responds : conclude env (source :: rest) source sink s₁ =
      (finalizeSink env sink (source == sink) env.earlierRounds true >>= fun _ =>
        (idleAgents (source :: rest) source sink).forM fun agent => do
          perform env.failure (.respond agent)
          modify (Server.send agent (.processingResponse true)))
        (s₁.send source (.processingResponse true)) := by
    rw [conclude, lastResponses, beq_eq_false_iff_ne.mpr apart]
    rfl
  have performs : Performs env.failure (Grows (source :: rest) sink)
      ([.finalizeSink env.earlierRounds] ++ (idleAgents (source :: rest) source sink).map .respond)
      (finalizeSink env sink (source == sink) env.earlierRounds true >>= fun _ =>
        (idleAgents (source :: rest) source sink).forM fun agent => do
          perform env.failure (.respond agent)
          modify (Server.send agent (.processingResponse true))) :=
    Performs.bind (grows_finalizeSink isSink _) grows_respond
  rw [responds]
  refine not_leftAlone_of_grows (performs.final _) apart ?_ ?_
  · rw [quiet.1, alive]
  · rw [quiet.1, isPipeline]

end Run

/-! ## Runs of the server -/

/-- A server before its first request. -/
def Server.new (unset : Bool) : Server := ⟨.new unset, []⟩

/-- The registered agents are linked to registered agents only, and none of them is
terminated or has got a last response. -/
structure Server.Inv (s : Server) : Prop where
  fresh : ∀ agent ∈ s.agents.registeredAgents, agent < s.agents.constructed
  linked : ∀ agent ∈ s.agents.registeredAgents, ∀ t,
    (s.agents.agents agent).outputAgent = some t → t ∈ s.agents.registeredAgents
  alive : ∀ agent ∈ s.agents.registeredAgents, (s.agents.agents agent).terminated = false
  unfinished : ∀ agent ∈ s.agents.registeredAgents, ¬ s.Finished agent
  addressed : ∀ message ∈ s.sent, message.1 < s.agents.constructed

/-- The loops of the pool may go through the registered agents in the orders of `env`. -/
def Admissible (s : Server) (env : Environment) : Prop :=
  ∀ request ∈ env.request, Enumerates env.linkOrder s.agents.registeredAgents ∧
    Enumerates env.searchOrder (s.agents.registerAgent env.linkOrder request).registeredAgents ∧
    ∀ agents,
      (s.agents.registerAgent env.linkOrder request).containsValidPipeline env.searchOrder env.fuel =
        some (true, agents) → Enumerates env.releaseOrder agents.registeredAgents

section Step

variable {env : Environment} {order l : List AgentRef} {request : RegistrationRequest}
  {s s' : Server} {start : AgentRef}

theorem Server.inv_new (unset : Bool) : (Server.new unset).Inv where
  fresh _ isIn := absurd isIn (Finset.notMem_empty _)
  linked _ isIn := absurd isIn (Finset.notMem_empty _)
  alive _ isIn := absurd isIn (Finset.notMem_empty _)
  unfinished _ isIn := absurd isIn (Finset.notMem_empty _)
  addressed _ isIn := absurd isIn List.not_mem_nil

theorem Server.Inv.register (inv : s.Inv) (enumerates : Enumerates order s.agents.registeredAgents) :
    Server.Inv { s with agents := s.agents.registerAgent order request } := by
  have inOrder : ∀ x, x ∈ order ↔ x ∈ s.agents.registeredAgents := fun x => by
    rw [← enumerates.2, List.mem_toFinset]
  have notNew : ∀ x ∈ s.agents.registeredAgents, x ≠ s.agents.constructed := fun x isIn =>
    (inv.fresh x isIn).ne
  constructor
  · intro x isIn
    rcases Finset.mem_insert.mp isIn with rfl | old
    · exact Nat.lt_succ_self _
    · exact (inv.fresh x old).trans (Nat.lt_succ_self _)
  · intro x isIn t linked
    rcases Finset.mem_insert.mp isIn with rfl | old
    · refine Finset.mem_insert_of_mem ((inOrder t).mp ?_)
      refine AgentPool.foldl_linkTo_outputAgent_mem ?_ ?_ linked
      · exact fun again => notNew _ ((inOrder _).mp again) rfl
      · rw [Function.update_self]
        rfl
    · rw [AgentPool.registerAgent_outputAgent_of_ne (notNew x old)] at linked
      split_ifs at linked
      · cases linked
        exact Finset.mem_insert_self _ _
      · exact Finset.mem_insert_of_mem (inv.linked x old t linked)
  · intro x isIn
    rw [AgentPool.registerAgent_terminated]
    split_ifs with isNew
    · rfl
    · exact inv.alive x ((Finset.mem_insert.mp isIn).resolve_left isNew)
  · intro x isIn finished
    rcases Finset.mem_insert.mp isIn with rfl | old
    · exact lt_irrefl _ (inv.addressed _ finished)
    · exact inv.unfinished x old finished
  · intro message isIn
    exact (inv.addressed message isIn).trans (Nat.lt_succ_self _)

/-- The walk of the search stays among the registered agents. -/
theorem Server.Inv.registered_of_reached (inv : s.Inv) {a b : AgentRef}
    (isIn : a ∈ s.agents.registeredAgents)
    (reached : Relation.ReflTransGen (Trail.Step (AgentPool.nextAgent s.agents.agents)) a b) :
    b ∈ s.agents.registeredAgents := by
  induction reached with
  | refl => exact isIn
  | tail _ step ih =>
    rw [Trail.Step, AgentPool.nextAgent] at step
    split_ifs at step
    exact inv.linked _ ih _ step

/-- The server when a pipeline has been found and the other agents have been turned away. -/
structure Ready (before : List (AgentRef × ServerMessage)) (t : Server)
    (pipelineAgents : List AgentRef) : Prop where
  sent : ∃ messages, t.sent = before ++ messages
  leftAlone : LeftAlone before → LeftAlone t.sent
  pipeline : t.agents.pipelineAgents = pipelineAgents
  registered : t.agents.registeredAgents = ∅
  nodup : pipelineAgents.Nodup
  fresh : ∀ agent ∈ pipelineAgents, agent < t.agents.constructed
  alive : ∀ agent ∈ pipelineAgents, (t.agents.agents agent).terminated = false
  unfinished : ∀ agent ∈ pipelineAgents, ¬ t.Finished agent
  addressed : ∀ message ∈ t.sent, message.1 < t.agents.constructed

theorem Server.Inv.ready (inv : s.Inv) (isStart : start ∈ s.agents.registeredAgents) {fuel : Nat}
    (walked : Trail.trail (AgentPool.nextAgent s.agents.agents) fuel start = some l)
    (enumerates : Enumerates order (s.agents.registeredAgents \ l.toFinset)) :
    Ready s.sent (Server.releaseUnusedAgents { s with agents := { s.agents with
      containsValidPipelineCached := true
      pipelineAgents := l
      registeredAgents := s.agents.registeredAgents \ l.toFinset } } order) l := by
  have inside : ∀ agent ∈ l, agent ∈ s.agents.registeredAgents := fun agent isIn =>
    inv.registered_of_reached isStart (Trail.reached_of_mem_trail walked isIn)
  have inOrder : ∀ agent, agent ∈ order ↔ agent ∈ s.agents.registeredAgents ∧ agent ∉ l := by
    intro agent
    rw [← List.mem_toFinset, enumerates.2, Finset.mem_sdiff, List.mem_toFinset]
  rcases @foldl_sendRegistrationInvalid { s with agents := { s.agents with
      containsValidPipelineCached := true
      pipelineAgents := l
      registeredAgents := s.agents.registeredAgents \ l.toFinset } } order
      (fun agent isIn => inv.unfinished agent ((inOrder agent).mp isIn).1) with
    ⟨messages, sent, addressed, leftAlone, finished, terminated, pipeline, constructed⟩
  refine ⟨⟨messages, sent⟩, leftAlone, pipeline, rfl, Trail.nodup_of_trail walked, ?_, ?_, ?_, ?_⟩
  · intro agent isIn
    exact lt_of_lt_of_eq (inv.fresh agent (inside agent isIn)) constructed.symm
  · intro agent isIn
    refine (terminated agent fun isOther => ((inOrder agent).mp isOther).2 isIn).trans ?_
    exact inv.alive agent (inside agent isIn)
  · intro agent isIn isFinished
    exact inv.unfinished agent (inside agent isIn) ((finished agent).mp isFinished)
  · intro message isIn
    refine lt_of_lt_of_eq ?_ constructed.symm
    change message ∈ (order.foldl Server.sendRegistrationInvalid _).sent at isIn
    rw [sent] at isIn
    rcases List.mem_append.mp isIn with before | isNew
    · exact inv.addressed message before
    · exact inv.fresh _ ((inOrder _).mp (addressed message isNew)).1

/-- What `processRequest` does: nothing, a registration, or the run of a pipeline. -/
theorem processRequest_cases (inv : s.Inv) (admissible : Admissible s env)
    (returned : s.processRequest env = some s') :
    (s.completes env = none ∧ s'.Inv ∧ s'.sent = s.sent) ∨
      ∃ t source rest sink, s.completes env = some (source :: rest) ∧
        (source :: rest).getLast? = some sink ∧ Ready s.sent t (source :: rest) ∧
        s' = (Server.handle (runConfigured env (source :: rest) source sink t)).reset [] := by
  rw [Server.processRequest] at returned
  rcases received : env.request with _ | request
  · rw [received] at returned
    cases returned
    exact .inl ⟨by rw [Server.completes, received]; rfl, inv, rfl⟩
  · rw [received] at returned
    rcases admissible request received with ⟨links, searches, releases⟩
    have inv' : Server.Inv { s with agents := s.agents.registerAgent env.linkOrder request } :=
      inv.register links
    simp only [Option.bind_eq_bind, Option.bind_eq_some_iff] at returned
    rcases returned with ⟨⟨found, agents⟩, search, returned⟩
    have completes : s.completes env = if found then some agents.cachedPipeline else none := by
      rw [Server.completes, received]
      simp only [Option.bind_eq_bind, Option.bind_some, search]
    rcases AgentPool.containsValidPipeline_cases rfl search with
      ⟨rfl, rfl⟩ | ⟨start, l, inOrder, walked, rfl, rfl⟩
    · cases returned
      exact .inl ⟨completes, inv', rfl⟩
    · have isStart : start ∈ (s.agents.registerAgent env.linkOrder request).registeredAgents := by
        rw [← searches.2, List.mem_toFinset]
        exact inOrder
      have ready := inv'.ready isStart walked (releases _ search)
      rcases Trail.last_of_trail walked with ⟨sink, isLast, -, -⟩
      have isHead := Trail.head_of_trail walked
      simp only [Bool.not_true, Bool.false_eq_true, if_false, AgentPool.cachedPipeline, isHead, isLast]
        at returned
      cases l with
      | nil => cases isHead
      | cons source rest =>
        cases isHead
        cases returned
        exact .inr ⟨_, start, rest, sink, completes, isLast, ready, rfl⟩

/-- A request keeps the invariant, and what has been sent stays sent. -/
theorem processRequest_inv (inv : s.Inv) (admissible : Admissible s env)
    (returned : s.processRequest env = some s') :
    s'.Inv ∧ ∃ messages, s'.sent = s.sent ++ messages := by
  rcases processRequest_cases inv admissible returned with
    ⟨-, inv', sent⟩ | ⟨t, source, rest, sink, -, isLast, ready, rfl⟩
  · exact ⟨inv', [], by rw [sent, List.append_nil]⟩
  · have isSink : sink ∈ source :: rest := List.mem_of_getLast? isLast
    rcases @grows_runConfigured env _ source sink List.mem_cons_self isSink t with
      ⟨⟨messages, sent, addressed⟩, pipeline, -, constructed, -⟩
    rcases grows_handle (runConfigured env (source :: rest) source sink t) with
      ⟨sent', pipeline', -, constructed', -⟩
    rcases @foldl_resetAgent_sent (Server.handle (runConfigured env (source :: rest) source sink t))
      (source :: rest) with ⟨last, sent'', addressed''⟩
    have total : ((Server.handle (runConfigured env (source :: rest) source sink t)).reset []).sent =
        t.sent ++ (messages ++ last) := by
      rw [reset_sent, pipeline', pipeline, ready.pipeline, sent'', sent', sent, List.append_assoc]
    have constructed'' : ((Server.handle
        (runConfigured env (source :: rest) source sink t)).reset []).agents.constructed =
        t.agents.constructed := by
      rw [← constructed, ← constructed']
      exact foldl_resetAgent_constructed
    refine ⟨⟨?_, ?_, ?_, ?_, ?_⟩, ?_⟩
    · exact fun agent isIn => absurd isIn (Finset.notMem_empty agent)
    · exact fun agent isIn => absurd isIn (Finset.notMem_empty agent)
    · exact fun agent isIn => absurd isIn (Finset.notMem_empty agent)
    · exact fun agent isIn => absurd isIn (Finset.notMem_empty agent)
    · intro message isIn
      rw [total] at isIn
      rw [constructed'']
      rcases List.mem_append.mp isIn with before | isNew
      · exact ready.addressed message before
      · rcases List.mem_append.mp isNew with early | late
        · exact ready.fresh _ (addressed message early)
        · exact ready.fresh _ (addressed'' message late)
    · rcases ready.sent with ⟨first, sentFirst⟩
      exact ⟨first ++ (messages ++ last), by rw [total, sentFirst, List.append_assoc]⟩

theorem length_eq_one_of_head_eq_last {a : AgentRef} {rest : List AgentRef}
    (nodup : (a :: rest).Nodup) (isLast : (a :: rest).getLast? = some a) : (a :: rest).length = 1 := by
  cases rest with
  | nil => rfl
  | cons b rest =>
    rw [List.getLast?_cons_cons] at isLast
    exact absurd (List.mem_of_getLast? isLast) (List.nodup_cons.mp nodup).1

/-- One request: the finished agents stay alone exactly if it ends quietly. -/
theorem processRequest_leftAlone_iff (inv : s.Inv) (admissible : Admissible s env)
    (returned : s.processRequest env = some s') (leftAlone : LeftAlone s.sent) :
    LeftAlone s'.sent ↔ EndsQuietly s env := by
  rcases processRequest_cases inv admissible returned with
    ⟨completes, -, sent⟩ | ⟨t, source, rest, sink, completes, isLast, ready, rfl⟩
  · rw [sent]
    refine ⟨fun _ pipelineAgents found => ?_, fun _ => leftAlone⟩
    rw [completes] at found
    cases found
  · have isSink : sink ∈ source :: rest := List.mem_of_getLast? isLast
    have isSource : source ∈ source :: rest := List.mem_cons_self
    have leftAlone' := ready.leftAlone leftAlone
    constructor
    · intro after pipelineAgents found
      rw [completes] at found
      cases found
      by_contra neither
      rw [not_or] at neither
      rcases neither with ⟨notSingle, notInterrupted⟩
      have apart : source ≠ sink := by
        rintro rfl
        exact notSingle (length_eq_one_of_head_eq_last ready.nodup isLast)
      refine not_leftAlone_of_source isSink apart (ready.alive source isSource) ready.pipeline ?_ after
      intro call isIn
      by_contra throws
      exact notInterrupted ⟨source, rfl, sink, isLast, call, isIn, throws⟩
    · intro quietly
      rcases quietly _ completes with single | interrupted
      · rw [List.length_cons, Nat.add_eq_right, List.length_eq_zero_iff] at single
        subst single
        cases isLast
        exact leftAlone_of_single leftAlone' (ready.unfinished source isSource) ready.pipeline
      · rcases interrupted with ⟨source', isHead, sink', isLast', call, isIn, throws⟩
        cases isHead
        rw [isLast] at isLast'
        cases isLast'
        exact leftAlone_of_interrupted isSource isSink leftAlone' ready.unfinished ready.pipeline
          ⟨call, isIn, throws⟩

/-- Agents that are left alone in the end have been so all the time. -/
theorem leftAlone_of_run {envs : List Environment} (inv : s.Inv)
    (admissible : Steps Server.processRequest Admissible s envs)
    (returned : run Server.processRequest s envs = some s') (leftAlone : LeftAlone s'.sent) :
    LeftAlone s.sent := by
  have grown : s'.Inv ∧ ∃ messages, s'.sent = s.sent ++ messages := by
    refine inv_of_run (P := Admissible) (I := fun x => x.Inv ∧ ∃ messages, x.sent = s.sent ++ messages)
      ?_ ⟨inv, [], (List.append_nil _).symm⟩ admissible returned
    rintro x env x' ⟨inv, messages, sent⟩ admitted returned
    rcases processRequest_inv inv admitted returned with ⟨inv', more, sent'⟩
    exact ⟨inv', messages ++ more, by rw [sent', sent, List.append_assoc]⟩
  rcases grown.2 with ⟨messages, sent⟩
  rw [sent] at leftAlone
  exact leftAlone.of_append

/-- In a run of the server every agent is left alone after its last response exactly if each
request ends quietly. -/
theorem run_leftAlone_iff {unset : Bool} {envs : List Environment}
    (admissible : Steps Server.processRequest Admissible (Server.new unset) envs)
    (returned : run Server.processRequest (Server.new unset) envs = some s') :
    LeftAlone s'.sent ↔ Steps Server.processRequest EndsQuietly (Server.new unset) envs := by
  have start : LeftAlone (Server.new unset).sent := List.Pairwise.nil
  have inv := Server.inv_new unset
  generalize Server.new unset = s at *
  induction envs generalizing s with
  | nil =>
    cases returned
    exact ⟨fun _ => trivial, fun _ => start⟩
  | cons env envs ih =>
    rcases Option.bind_eq_some_iff.mp returned with ⟨s₁, first, later⟩
    rcases admissible with ⟨admitted, rest⟩
    have inv₁ := (processRequest_inv inv admitted first).1
    have iff := processRequest_leftAlone_iff inv admitted first start
    constructor
    · intro leftAlone
      have leftAlone₁ := leftAlone_of_run inv₁ (rest s₁ first) later leftAlone
      refine ⟨iff.mp leftAlone₁, fun s₂ again => ?_⟩
      rw [first] at again
      cases again
      exact (ih s₁ (rest s₁ first) later leftAlone₁ inv₁).mp leftAlone
    · rintro ⟨quietly, steps⟩
      exact (ih s₁ (rest s₁ first) later (iff.mpr quietly) inv₁).mpr (steps s₁ first)

end Step

instance (sent : List (AgentRef × ServerMessage)) : Decidable (LeftAlone sent) :=
  inferInstanceAs (Decidable (List.Pairwise _ sent))

/-- A request in a run without exceptions. -/
def undisturbed (request : RegistrationRequest) (linkOrder searchOrder : List AgentRef) :
    Environment where
  request := request
  linkOrder := linkOrder
  searchOrder := searchOrder
  releaseOrder := []
  fuel := 2
  inputBuffer := true
  outputBuffer := true
  earlierRounds := 1
  failure := fun _ => none

/-- A pipeline of a single agent. -/
theorem run_leftAlone_single :
    ∃ s', run Server.processRequest (Server.new false) [undisturbed ⟨11, 0, 0⟩ [] [0]] = some s' ∧
      LeftAlone s'.sent := by
  have admissible : Steps Server.processRequest Admissible (Server.new false)
      [undisturbed ⟨11, 0, 0⟩ [] [0]] := by
    refine ⟨?_, fun _ _ => trivial⟩
    rintro request ⟨⟩
    refine ⟨⟨by decide, by decide⟩, ⟨by decide, by decide⟩, ?_⟩
    rintro agents ⟨⟩
    exact ⟨by decide, by decide⟩
  refine ⟨_, rfl, (run_leftAlone_iff admissible rfl).mpr ⟨?_, fun _ _ => trivial⟩⟩
  rintro pipelineAgents ⟨⟩
  exact .inl rfl

/-- Two agents.  The source is turned away after its last response. -/
theorem not_leftAlone_two :
    Steps Server.processRequest Admissible (Server.new false)
        [undisturbed ⟨11, 0, 12⟩ [] [0], undisturbed ⟨12, 11, 0⟩ [0] [0, 1]] ∧
      ∃ s', run Server.processRequest (Server.new false)
          [undisturbed ⟨11, 0, 12⟩ [] [0], undisturbed ⟨12, 11, 0⟩ [0] [0, 1]] = some s' ∧
        ¬ LeftAlone s'.sent := by
  refine ⟨⟨?_, ?_⟩, _, rfl, by decide⟩
  · rintro request ⟨⟩
    refine ⟨⟨by decide, by decide⟩, ⟨by decide, by decide⟩, ?_⟩
    rintro agents ⟨⟩
  · rintro s₁ ⟨⟩
    refine ⟨?_, fun _ _ => trivial⟩
    rintro request ⟨⟩
    refine ⟨⟨by decide, by decide⟩, ⟨by decide, by decide⟩, ?_⟩
    rintro agents ⟨⟩
    exact ⟨by decide, by decide⟩

end MetalFs.Driver.Requests
