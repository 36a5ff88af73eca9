import MetalFs.Driver.PipelineDetection

/-!
# The order in which a pipeline's agents register

The shell starts the processes of a pipeline at once, so that they register in any order,
and the server looks for a pipeline after each of them.  It finds none before the last one
has come, and then exactly the pipeline (`registering_of_perm`), if only the first agent of
it is an input agent.  An agent in the middle with the input number 0 would be taken for the
start of a pipeline of its own.
-/

namespace MetalFs.Driver

open Relation Trail

/-- Agents with distinct non-zero numbers, each of which writes to the next one, from one
without an input process to one without an output process. -/
structure IsPipeline (chain : List RegistrationRequest) : Prop where
  nonempty : chain ≠ []
  distinct : (chain.map RegistrationRequest.pid).Nodup
  nonzero : ∀ a ∈ chain, a.pid ≠ 0
  start : ∀ a ∈ chain.head?, a.inputPid = 0
  last : ∀ a ∈ chain.getLast?, a.outputPid = 0
  linked : chain.IsChain RegistrationRequest.WritesTo

/-- However the set of registered agents is ordered in each loop, registering the agents of
`requests` one after another, with a call of `containsValidPipeline` after each, returns, and
the results and the pool afterwards satisfy `post`. -/
def AgentPool.Registering (pool : AgentPool) :
    List RegistrationRequest → (List Bool → AgentPool → Prop) → Prop
  | [], post => post [] pool
  | request :: requests, post =>
    ∀ linkOrder searchOrder, Enumerates linkOrder pool.registeredAgents →
      Enumerates searchOrder (pool.registerAgent linkOrder request).registeredAgents →
      ∃ fuel found pool',
        (pool.registerAgent linkOrder request).containsValidPipeline searchOrder fuel =
          some (found, pool') ∧
        pool'.Registering requests fun results final => post (found :: results) final

theorem AgentPool.Registering.imp {P Q : List Bool → AgentPool → Prop}
    {requests : List RegistrationRequest} {pool : AgentPool} (registering : pool.Registering requests P)
    (imp : ∀ results final, P results final → Q results final) : pool.Registering requests Q := by
  induction requests generalizing pool P Q with
  | nil => exact imp [] pool registering
  | cons request requests ih =>
    intro linkOrder searchOrder links searches
    rcases registering linkOrder searchOrder links searches with ⟨fuel, found, pool', returned, rest⟩
    exact ⟨fuel, found, pool', returned, ih rest fun results final => imp (found :: results) final⟩

/-! ## Positions in a pipeline -/

section Position

variable {chain part : List RegistrationRequest} {x y z : RegistrationRequest}

theorem IsPipeline.nodup (pipeline : IsPipeline chain) : chain.Nodup :=
  pipeline.distinct.of_map _

/-- The output of an agent is the next one's number, or it is the last one. -/
theorem IsPipeline.output_cases (pipeline : IsPipeline chain) (isX : x ∈ chain) :
    (∃ y ∈ chain, x.WritesTo y ∧ chain.idxOf y = chain.idxOf x + 1) ∨
      x.outputPid = 0 ∧ chain.idxOf x + 1 = chain.length := by
  have inside := List.idxOf_lt_length_of_mem isX
  have isThere : chain[chain.idxOf x] = x := List.getElem_idxOf inside
  by_cases more : chain.idxOf x + 1 < chain.length
  · refine .inl ⟨chain[chain.idxOf x + 1], List.getElem_mem more, ?_, ?_⟩
    · have writes := List.isChain_iff_getElem.mp pipeline.linked (chain.idxOf x) more
      rwa [isThere] at writes
    · exact pipeline.nodup.idxOf_getElem _ more
  · refine .inr ⟨pipeline.last x ?_, by omega⟩
    have position : chain.length - 1 = chain.idxOf x := by omega
    rw [Option.mem_def, List.getLast?_eq_getElem?, position]
    exact List.getElem?_eq_some_iff.mpr ⟨inside, isThere⟩

theorem IsPipeline.idxOf_of_writesTo (pipeline : IsPipeline chain) (isX : x ∈ chain)
    (isY : y ∈ chain) (writes : x.WritesTo y) : chain.idxOf y = chain.idxOf x + 1 := by
  rcases pipeline.output_cases isX with ⟨next, isNext, writesNext, position⟩ | ⟨isLast, -⟩
  · have same : y = next :=
      eq_of_pid pipeline.distinct isY isNext (writes.symm.trans writesNext)
    rw [same, position]
  · exact absurd (writes.symm.trans isLast) (pipeline.nonzero y isY)

theorem IsPipeline.not_writesTo_back (pipeline : IsPipeline chain) (isX : x ∈ chain)
    (isY : y ∈ chain) (writes : x.WritesTo y) : ¬ y.WritesTo x := by
  intro back
  have there := pipeline.idxOf_of_writesTo isX isY writes
  have again := pipeline.idxOf_of_writesTo isY isX back
  omega

/-! ## A part of a pipeline -/

theorem IsPipeline.idxOf_lt_of_transGen (pipeline : IsPipeline chain) (sub : part ⊆ chain)
    (path : TransGen (Link part) x y) : chain.idxOf x < chain.idxOf y := by
  induction path with
  | single link =>
    have next := pipeline.idxOf_of_writesTo (sub link.1) (sub link.2.1) link.2.2
    omega
  | tail _ link ih =>
    have next := pipeline.idxOf_of_writesTo (sub link.1) (sub link.2.1) link.2.2
    omega

theorem IsPipeline.not_runsInCircles (pipeline : IsPipeline chain) (sub : part ⊆ chain) :
    ¬ RunsInCircles part x := by
  rintro ⟨b, -, turn, -⟩
  exact lt_irrefl _ (pipeline.idxOf_lt_of_transGen sub turn)

/-- All agents behind one that leads out have registered. -/
theorem IsPipeline.mem_of_leadsOut (pipeline : IsPipeline chain) (sub : part ⊆ chain)
    (isX : x ∈ part) (leadsOut : LeadsOut part x) (isY : y ∈ chain)
    (behind : chain.idxOf x ≤ chain.idxOf y) : y ∈ part := by
  rcases leadsOut with ⟨z, isZ, isOutput, path⟩
  induction path using ReflTransGen.head_induction_on with
  | refl =>
    rcases pipeline.output_cases (sub isZ) with ⟨next, isNext, writes, -⟩ | ⟨-, isLast⟩
    · exact absurd (writes.symm.trans isOutput) (pipeline.nonzero next isNext)
    · have inside := List.idxOf_lt_length_of_mem isY
      have same : y = z := (List.idxOf_inj isY).mp (by omega)
      rwa [same]
  | head link _ ih =>
    have next := pipeline.idxOf_of_writesTo (sub link.1) (sub link.2.1) link.2.2
    rcases behind.eq_or_lt with same | later
    · rwa [← (List.idxOf_inj (sub link.1)).mp same]
    · exact ih link.2.1 (by omega)

variable (only : ∀ a ∈ chain.tail, a.inputPid ≠ 0)

include only

/-- The input agent is the first one. -/
theorem IsPipeline.idxOf_of_input (isX : x ∈ chain) (isInput : x.inputPid = 0) :
    chain.idxOf x = 0 := by
  cases chain with
  | nil => exact absurd isX List.not_mem_nil
  | cons first rest =>
    rcases List.mem_cons.mp isX with rfl | later
    · exact List.idxOf_cons_self
    · exact absurd isInput (only x later)

theorem IsPipeline.not_leadsOut (pipeline : IsPipeline chain) (sub : part ⊆ chain)
    (isY : y ∈ chain) (missing : y ∉ part) (isX : x ∈ part) (isInput : x.inputPid = 0) :
    ¬ LeadsOut part x := by
  intro leadsOut
  have first := idxOf_of_input only (sub isX) isInput
  exact missing (pipeline.mem_of_leadsOut sub isX leadsOut isY (by omega))

end Position

namespace AgentPool

section Registering

variable {chain part rest requests : List RegistrationRequest} {pool : AgentPool}
  {order : List AgentRef}

/-- Registered agents with the given requests. -/
theorem Holds.exists_agents (holds : Holds part pool) (sub : chain ⊆ part) :
    ∃ l : List AgentRef, l.map pool.request = chain ∧ ∀ agent ∈ l, agent ∈ pool.registeredAgents := by
  induction chain with
  | nil => exact ⟨[], rfl, fun agent isIn => absurd isIn List.not_mem_nil⟩
  | cons request chain ih =>
    rw [List.cons_subset] at sub
    rcases holds.exists_agent sub.1 with ⟨agent, isRegistered, rfl⟩
    rcases ih sub.2 with ⟨l, rfl, registered⟩
    exact ⟨agent :: l, rfl, List.forall_mem_cons.mpr ⟨isRegistered, registered⟩⟩

/-- The walk along the agents of a pipeline. -/
theorem Holds.trail_pipeline (holds : Holds part pool) (pipeline : IsPipeline chain)
    (perm : part.Perm chain) {start : AgentRef} {l : List AgentRef}
    (named : (start :: l).map pool.request = chain)
    (registered : ∀ agent ∈ start :: l, agent ∈ pool.registeredAgents) :
    trail (nextAgent pool.agents) (l.length + 1) start = some (start :: l) := by
  have nonzero : ∀ r ∈ part, r.pid ≠ 0 := fun r isIn => pipeline.nonzero r (perm.mem_iff.mp isIn)
  have inChain : ∀ agent ∈ start :: l, pool.request agent ∈ chain := by
    intro agent isIn
    rw [← named]
    exact List.mem_map_of_mem isIn
  refine trail_of_isChain ?_ ?_
  · have linked := pipeline.linked
    rw [← named, List.isChain_map] at linked
    refine linked.imp_of_mem_imp ?_
    intro a b isA isB writes
    refine (step_iff holds nonzero (registered a isA)).mpr ⟨registered b isB, writes, ?_⟩
    intro back
    exact absurd back (pipeline.not_writesTo_back (inChain a isA) (inChain b isB) writes)
  · intro z isLast
    refine if_pos (OperatorAgent.isOutputAgent_iff.mpr (pipeline.last _ ?_))
    rw [← named, List.getLast?_map]
    exact Option.mem_map_of_mem _ isLast

variable (pipeline : IsPipeline chain) (only : ∀ a ∈ chain.tail, a.inputPid ≠ 0)

include pipeline only

theorem containsValidPipeline_of_part (holds : Holds part pool)
    (uncached : pool.containsValidPipelineCached = false)
    (enumerates : Enumerates order pool.registeredAgents) (perm : (part ++ rest).Perm chain)
    (more : rest ≠ []) :
    ∃ fuel, pool.containsValidPipeline order fuel = some (false, pool) := by
  have sub : part ⊆ chain := fun x isIn => perm.mem_iff.mp (List.mem_append_left _ isIn)
  have nodup : (part ++ rest).Nodup := perm.nodup_iff.mpr pipeline.nodup
  rcases List.exists_mem_of_ne_nil rest more with ⟨y, isRest⟩
  have isY : y ∈ chain := perm.mem_iff.mp (List.mem_append_right _ isRest)
  have missing : y ∉ part := fun isPart => (List.disjoint_of_nodup_append nodup) isPart isRest
  have distinct : (part.map RegistrationRequest.pid).Nodup := by
    have all := (perm.map RegistrationRequest.pid).nodup_iff.mpr pipeline.distinct
    rw [List.map_append] at all
    exact all.of_append_left
  refine containsValidPipeline_of_unfinished holds uncached enumerates distinct
    (fun r isIn => pipeline.nonzero r (sub isIn)) ?_
  intro a isA isInput
  exact ⟨pipeline.not_leadsOut only sub isY missing isA isInput, pipeline.not_runsInCircles sub⟩

/-- The input agent that the search finds is the first one of the pipeline. -/
theorem Holds.find_start (holds : Holds part pool) (perm : part.Perm chain)
    (enumerates : Enumerates order pool.registeredAgents) {start : AgentRef} {l : List AgentRef}
    (named : (start :: l).map pool.request = chain)
    (isStart : start ∈ pool.registeredAgents) :
    order.find? (fun agent => (pool.agents agent).isInputAgent) = some start := by
  have isInput : (pool.request start).inputPid = 0 := by
    refine pipeline.start _ ?_
    rw [← named]
    rfl
  have distinct : (part.map RegistrationRequest.pid).Nodup :=
    (perm.map RegistrationRequest.pid).nodup_iff.mpr pipeline.distinct
  rcases first : order.find? fun agent => (pool.agents agent).isInputAgent with _ | found
  · rw [← enumerates.2, List.mem_toFinset] at isStart
    exact absurd (OperatorAgent.isInputAgent_iff.mpr isInput) (List.find?_eq_none.mp first _ isStart)
  · rcases holds.input_of_find enumerates first with ⟨isFound, isRequest, isInput'⟩
    have foundFirst := IsPipeline.idxOf_of_input only (perm.mem_iff.mp isRequest) isInput'
    have startFirst := IsPipeline.idxOf_of_input only
      (perm.mem_iff.mp (holds.request_mem isStart)) isInput
    have same : pool.request found = pool.request start :=
      (List.idxOf_inj (perm.mem_iff.mp isRequest)).mp (foundFirst.trans startFirst.symm)
    rw [holds.eq_of_pid distinct isFound isStart (congrArg RegistrationRequest.pid same)]

theorem containsValidPipeline_of_complete (holds : Holds part pool)
    (uncached : pool.containsValidPipelineCached = false)
    (enumerates : Enumerates order pool.registeredAgents) (perm : part.Perm chain) :
    ∃ fuel pool', pool.containsValidPipeline order fuel = some (true, pool') ∧
      pool'.cachedPipeline.map pool'.request = chain ∧ pool'.registeredAgents = ∅ := by
  have distinct : (part.map RegistrationRequest.pid).Nodup :=
    (perm.map RegistrationRequest.pid).nodup_iff.mpr pipeline.distinct
  rcases holds.exists_agents perm.symm.subset with ⟨l, named, registered⟩
  cases l with
  | nil => exact absurd named.symm pipeline.nonempty
  | cons start l =>
    have first := holds.find_start pipeline only perm enumerates named
      (registered start List.mem_cons_self)
    have walked := holds.trail_pipeline pipeline perm named registered
    rcases last_of_trail walked with ⟨b, isLast, -, -⟩
    have isOutput : (pool.agents b).isOutputAgent := by
      refine OperatorAgent.isOutputAgent_iff.mpr (pipeline.last _ ?_)
      rw [← named, List.getLast?_map, isLast]
      rfl
    have found := containsValidPipeline_of_trail uncached first walked isLast
    rw [if_pos isOutput] at found
    refine ⟨_, _, found, named, ?_⟩
    refine Finset.sdiff_eq_empty_iff_subset.mpr fun agent isRegistered => ?_
    have isRequest := perm.mem_iff.mp (holds.request_mem isRegistered)
    rw [← named] at isRequest
    rcases List.mem_map.mp isRequest with ⟨other, isOther, same⟩
    rw [List.mem_toFinset, holds.eq_of_pid distinct isRegistered (registered other isOther)
      (congrArg RegistrationRequest.pid same.symm)]
    exact isOther

/-- The induction is on the agents that have not registered yet. -/
theorem registering_rest (holds : Holds part pool) (perm : (part ++ rest).Perm chain)
    (more : rest ≠ []) :
    pool.Registering rest fun results final =>
      results = List.replicate (rest.length - 1) false ++ [true] ∧
        final.cachedPipeline.map final.request = chain ∧ final.registeredAgents = ∅ := by
  induction rest generalizing part pool with
  | nil => exact absurd rfl more
  | cons request rest ih =>
    intro linkOrder searchOrder links searches
    have perm' : ((part ++ [request]) ++ rest).Perm chain := by
      rwa [List.append_assoc, List.singleton_append]
    have distinct : ((part ++ [request]).map RegistrationRequest.pid).Nodup := by
      have all := (perm'.map RegistrationRequest.pid).nodup_iff.mpr pipeline.distinct
      rw [List.map_append] at all
      exact all.of_append_left
    have holds' := holds.registerAgent distinct links
    cases rest with
    | nil =>
      rw [List.append_nil] at perm'
      rcases containsValidPipeline_of_complete pipeline only holds' rfl searches perm' with
        ⟨fuel, pool', found, cached, empty⟩
      exact ⟨fuel, true, pool', found, rfl, cached, empty⟩
    | cons next rest =>
      rcases containsValidPipeline_of_part pipeline only holds' rfl searches perm'
        (List.cons_ne_nil next rest) with ⟨fuel, found⟩
      refine ⟨fuel, false, _, found, ?_⟩
      refine (ih holds' perm' (List.cons_ne_nil next rest)).imp ?_
      rintro results final ⟨rfl, cached, empty⟩
      exact ⟨rfl, cached, empty⟩

/-- In whatever order the agents of a pipeline register, the pipeline is found with the last
one of them, as a whole and in its own order. -/
theorem registering_of_perm (perm : requests.Perm chain) (empty : pool.registeredAgents = ∅) :
    pool.Registering requests fun results final =>
      results = List.replicate (chain.length - 1) false ++ [true] ∧
        final.cachedPipeline.map final.request = chain ∧ final.registeredAgents = ∅ := by
  have more : requests ≠ [] := by
    rintro rfl
    exact pipeline.nonempty perm.nil_eq.symm
  rw [← perm.length_eq]
  exact registering_rest pipeline only (.of_empty empty) perm more

end Registering

/-- Three agents that make a pipeline. -/
def threeStages : List RegistrationRequest := [⟨11, 0, 12⟩, ⟨12, 11, 13⟩, ⟨13, 12, 0⟩]

theorem registering_threeStages :
    (AgentPool.new false).Registering [⟨12, 11, 13⟩, ⟨13, 12, 0⟩, ⟨11, 0, 12⟩]
      fun results final => results = [false, false, true] ∧
        final.cachedPipeline.map final.request = threeStages ∧ final.registeredAgents = ∅ :=
  registering_of_perm (show IsPipeline threeStages from
    ⟨by decide, by decide, by decide, by decide, by decide, by decide⟩) (by decide) (by decide) rfl

/-- A pipeline whose second agent is an input agent, too. -/
def twoStarts : List RegistrationRequest := [⟨11, 0, 12⟩, ⟨12, 0, 0⟩]

/-- If the second agent registers first it is a pipeline on its own. -/
theorem not_registering_twoStarts :
    IsPipeline twoStarts ∧ twoStarts.reverse.Perm twoStarts ∧
      ¬ (AgentPool.new false).Registering twoStarts.reverse fun results final =>
        results = List.replicate (twoStarts.length - 1) false ++ [true] ∧
          final.cachedPipeline.map final.request = twoStarts ∧ final.registeredAgents = ∅ := by
  refine ⟨⟨by decide, by decide, by decide, by decide, by decide, by decide⟩, by decide, ?_⟩
  intro registering
  rcases registering [] [0] ⟨by decide, by decide⟩ ⟨by decide, by decide⟩ with
    ⟨fuel, found, pool, returned, rest⟩
  cases fuel with
  | zero => cases returned
  | succ fuel =>
    have early : found = true := by
      cases returned
      rfl
    have emptied : pool.registeredAgents = ∅ ∧ pool.constructed = 1 := by
      cases returned
      exact ⟨by decide, rfl⟩
    rcases rest [] [1] ⟨by decide, by rw [emptied.1]; rfl⟩ ⟨by decide, by
      rw [registerAgent, emptied.1, emptied.2]; rfl⟩ with ⟨-, second, -, -, same, -⟩
    rw [early] at same
    cases same

end AgentPool

end MetalFs.Driver
