import MetalFs.Fpga.StreamSwitch

/-!
# The operators of a round

`SnapPipelineRunner::run` configures the stream switch in the first round of a runner, and marks the
configuration of its pipeline as cached; `Pipeline::run` configures the switch if it is not.  The
card is shared: the rounds of several runners may alternate, and two runners may have the same
pipeline.

`streams_run` says where the data of a round goes: from its source, through the operators of the
runner that had its first round last, to its sink.
-/

namespace MetalFs.Pipeline

open Fpga Routing

/-! ## Rounds -/

/-- The runners and their pipelines, with the stream ids of the operators. -/
structure Setup (ρ π : Type) where
  pipeline : ρ → π
  operators : π → List UInt8

/-- The flags of the runners and the pipelines, and the switches of the card. -/
structure Streams (ρ π σ τ : Type) where
  initialized : ρ → Bool
  cachedSwitchConfiguration : π → Bool
  metalSwitch : σ
  dataSelector : τ

/-- How far a call of `SnapPipelineRunner::run` comes: an exception of the source or the sink before
the runner is initialised, no data or an exception of `preRun`, or the last job of the pipeline.  A
call that throws in the constructor of `SnapAction` or in its `ConfigureStreams` job is no round
here. -/
inductive RoundEnd where
  | failed
  | idle
  | ran (source destination : Address) (needsPreparation : Bool)
deriving DecidableEq, Repr

/-- A call of `SnapPipelineRunner::run`. -/
structure RunnerRound (ρ : Type) where
  runner : ρ
  ends : RoundEnd
deriving DecidableEq

/-- The stream ids of the operators of a runner. -/
def Setup.ids {ρ π : Type} (setup : Setup ρ π) (r : ρ) : List Nat :=
  (setup.operators (setup.pipeline r)).map UInt8.toNat

/-- The value-initialised `Address`. -/
def noAddress : Address := ⟨0, 0, .host, .none⟩

section Step

variable {ρ π σ τ : Type} [DecidableEq ρ] [DecidableEq π] (metal : AxiSwitch σ)
  (selector : AxiSwitch τ) (setup : Setup ρ π)

/-- A `ConfigureStreams` job for the operators of a pipeline, with whatever the allocation left
behind its words, was on the line at its address. -/
def ConfiguresStreams (operators : List UInt8) (s s' : σ) : Prop :=
  ∃ memory job memIn jobAddress, sizeofMembus ≤ memory.length ∧
    configureSwitch memory operators = some job ∧ HoldsAt memIn jobAddress job ∧
    s' = actionConfigureStreams metal s memIn jobAddress

/-- What a `RunOperators` job does to the data selector. -/
def selectStreams (source destination : Address) (t : τ) : τ :=
  opMemSetConfig selector destination false (opMemSetConfig selector source true t)

/-- `Pipeline::configureSwitch`. -/
def Streams.ConfiguresSwitch (p : π) (setCached : Bool) (st st' : Streams ρ π σ τ) : Prop :=
  ∃ s, ConfiguresStreams metal (setup.operators p) st.metalSwitch s ∧
    st' = { st with
      metalSwitch := s
      cachedSwitchConfiguration := Function.update st.cachedSwitchConfiguration p setCached }

/-- `Pipeline::run` up to its last job. -/
def Streams.PipelineRuns (p : π) (source destination : Address) (needsPreparation : Bool)
    (st st' : Streams ρ π σ τ) : Prop :=
  let prepared := { st with
    dataSelector := if needsPreparation then
      selectStreams selector noAddress noAddress st.dataSelector else st.dataSelector }
  ∃ configured, (if prepared.cachedSwitchConfiguration p then configured = prepared
      else Streams.ConfiguresSwitch metal setup p false prepared configured) ∧
    st' = { configured with
      dataSelector := selectStreams selector source destination configured.dataSelector }

/-- `SnapPipelineRunner::run`. -/
def Streams.RunnerRuns (round : RunnerRound ρ) (st st' : Streams ρ π σ τ) : Prop :=
  let p := setup.pipeline round.runner
  ∃ configured, (if st.initialized round.runner then configured = st
      else Streams.ConfiguresSwitch metal setup p true st configured) ∧
    let initialized := { configured with
      initialized := Function.update configured.initialized round.runner true }
    match round.ends with
    | .failed => st' = configured
    | .idle => st' = initialized
    | .ran source destination needsPreparation =>
      Streams.PipelineRuns metal selector setup p source destination needsPreparation initialized st'

/-- The rounds of a run of the process, the last one first. -/
inductive StreamRun : List (RunnerRound ρ) → Streams ρ π σ τ → Prop
  | start {st : Streams ρ π σ τ} (runners : ∀ r, st.initialized r = false)
      (pipelines : ∀ p, st.cachedSwitchConfiguration p = false) : StreamRun [] st
  | round {history : List (RunnerRound ρ)} {st st' : Streams ρ π σ τ} {next : RunnerRound ρ}
      (before : StreamRun history st)
      (step : Streams.RunnerRuns metal selector setup next st st') : StreamRun (next :: history) st'

end Step

/-! ## Who configured the switch -/

section Owner

variable {ρ : Type}

/-- A runner has been initialised. -/
def Initialized (history : List (RunnerRound ρ)) (r : ρ) : Prop :=
  ∃ round ∈ history, round.runner = r ∧ round.ends ≠ .failed

theorem initialized_cons (round : RunnerRound ρ) (history : List (RunnerRound ρ)) (r : ρ) :
    Initialized (round :: history) r ↔
      (round.runner = r ∧ round.ends ≠ .failed) ∨ Initialized history r := by
  unfold Initialized
  rw [List.exists_mem_cons_iff]

variable [DecidableEq ρ]

instance (history : List (RunnerRound ρ)) (r : ρ) : Decidable (Initialized history r) :=
  inferInstanceAs (Decidable (∃ round ∈ history, round.runner = r ∧ round.ends ≠ .failed))

/-- The runner that was not yet initialised when it had a round, the last time this happened. -/
def lastConfigured : List (RunnerRound ρ) → Option ρ
  | [] => none
  | round :: earlier =>
    if Initialized earlier round.runner then lastConfigured earlier else some round.runner

theorem exists_lastConfigured {history : List (RunnerRound ρ)} (some_round : history ≠ []) :
    ∃ owner, lastConfigured history = some owner := by
  induction history with
  | nil => exact absurd rfl some_round
  | cons round earlier ih =>
    rw [lastConfigured]
    split
    · rename_i initialized
      refine ih fun none => ?_
      obtain ⟨first, member, -⟩ := initialized
      rw [none] at member
      cases member
    · exact ⟨round.runner, rfl⟩

end Owner

/-! ## The invariant -/

section Invariant

variable {ρ π σ τ : Type} [DecidableEq π] {metal : AxiSwitch σ} {selector : AxiSwitch τ}
  {setup : Setup ρ π} {history : List (RunnerRound ρ)} {st st' : Streams ρ π σ τ} {ports : Nat}

/-- A pipeline whose configuration is cached does not touch the stream switch. -/
theorem Streams.PipelineRuns.of_cached {p : π} {source destination : Address}
    {needsPreparation : Bool} (cached : st.cachedSwitchConfiguration p = true)
    (runs : Streams.PipelineRuns metal selector setup p source destination needsPreparation st st') :
    ∃ t, st' = { st with dataSelector := selectStreams selector source destination t } := by
  obtain ⟨configured, step, rfl⟩ := runs
  rw [if_pos cached] at step
  rw [step]
  exact ⟨_, rfl⟩

variable [DecidableEq ρ]

/-- The switch connects the operators of a runner. -/
def Connects (metal : AxiSwitch σ) (setup : Setup ρ π) (s : σ) (r : ρ) : Prop :=
  Realises operatorPorts (metal.route s) (connect 0 0 (setup.ids r) fun _ => none)

/-- What the flags say about the rounds so far, and whose operators the switch connects. -/
structure StreamsOk (metal : AxiSwitch σ) (setup : Setup ρ π) (history : List (RunnerRound ρ))
    (st : Streams ρ π σ τ) : Prop where
  initialized : ∀ r, st.initialized r = true ↔ Initialized history r
  cached : ∀ r, st.initialized r = true → st.cachedSwitchConfiguration (setup.pipeline r) = true
  connects : ∀ owner, lastConfigured history = some owner → Connects metal setup st.metalSwitch owner

theorem ConfiguresStreams.realises (documented : metal.Documented operatorPorts ports)
    (fits : ports ≤ 8) (input : 0 < ports) {operators : List UInt8}
    (ids : ∀ id ∈ operators, id.toNat < ports) {s s' : σ}
    (configures : ConfiguresStreams metal operators s s') : Realises operatorPorts (metal.route s')
      (connect 0 0 (operators.map UInt8.toNat) fun _ => none) := by
  obtain ⟨memory, job, memIn, jobAddress, line, configured, holds, rfl⟩ := configures
  rw [← actionConfigureStreams_table documented fits input ids configured line holds]
  unfold actionConfigureStreams
  dsimp only
  rw [documented.table_commit]
  exact documented.realises

/-- A round leaves the flags and the stream switch as its first step does, apart from its own
flag. -/
theorem Streams.RunnerRuns.frame {round : RunnerRound ρ}
    (cached : st.initialized round.runner = true →
      st.cachedSwitchConfiguration (setup.pipeline round.runner) = true)
    (runs : Streams.RunnerRuns metal selector setup round st st') :
    ∃ configured, (if st.initialized round.runner then configured = st
        else Streams.ConfiguresSwitch metal setup (setup.pipeline round.runner) true st configured) ∧
      st'.metalSwitch = configured.metalSwitch ∧
      st'.cachedSwitchConfiguration = configured.cachedSwitchConfiguration ∧
      st'.initialized = if round.ends = .failed then configured.initialized
        else Function.update configured.initialized round.runner true := by
  obtain ⟨configured, first, rest⟩ := runs
  have kept : configured.cachedSwitchConfiguration (setup.pipeline round.runner) = true := by
    split at first
    · rename_i initialized
      rw [first]
      exact cached initialized
    · obtain ⟨s, -, rfl⟩ := first
      exact Function.update_self _ _ _
  refine ⟨configured, first, ?_⟩
  cases ends : round.ends with
  | failed =>
    simp only [ends] at rest
    rw [rest]
    exact ⟨rfl, rfl, rfl⟩
  | idle =>
    simp only [ends] at rest
    rw [rest]
    exact ⟨rfl, rfl, rfl⟩
  | ran source destination needsPreparation =>
    simp only [ends] at rest
    obtain ⟨t, rfl⟩ := Streams.PipelineRuns.of_cached (by exact kept) rest
    exact ⟨rfl, rfl, rfl⟩

theorem StreamsOk.round (documented : metal.Documented operatorPorts ports) (fits : ports ≤ 8)
    (input : 0 < ports) (ids : ∀ p, ∀ id ∈ setup.operators p, id.toNat < ports)
    (ok : StreamsOk metal setup history st) {next : RunnerRound ρ}
    (step : Streams.RunnerRuns metal selector setup next st st') :
    StreamsOk metal setup (next :: history) st' := by
  obtain ⟨configured, first, metalSwitch, cached, initialized⟩ := step.frame (ok.cached next.runner)
  have flags : configured.initialized = st.initialized := by
    split at first
    · rw [first]
    · obtain ⟨s, -, rfl⟩ := first
      rfl
  rw [flags] at initialized
  refine ⟨fun r => ?_, fun r isInitialized => ?_, fun owner isOwner => ?_⟩
  · rw [initialized_cons, ← ok.initialized r, initialized]
    by_cases failed : next.ends = .failed
    · rw [if_pos failed]
      exact ⟨Or.inr, fun either => either.resolve_left fun both => both.2 failed⟩
    · rw [if_neg failed]
      by_cases same : r = next.runner
      · rw [same, Function.update_self]
        exact ⟨fun _ => Or.inl ⟨rfl, failed⟩, fun _ => rfl⟩
      · rw [Function.update_of_ne same]
        exact ⟨Or.inr, fun either => either.resolve_left fun both => same both.1.symm⟩
  · rw [cached]
    split at first
    · rename_i wasInitialized
      rw [first]
      refine ok.cached r ?_
      rw [initialized] at isInitialized
      split at isInitialized
      · exact isInitialized
      · by_cases same : r = next.runner
        · rw [same, wasInitialized]
        · rwa [Function.update_of_ne same] at isInitialized
    · obtain ⟨s, -, rfl⟩ := first
      by_cases same : setup.pipeline r = setup.pipeline next.runner
      · rw [same]
        exact Function.update_self _ _ _
      · refine (Function.update_of_ne same _ _).trans (ok.cached r ?_)
        rw [initialized] at isInitialized
        split at isInitialized
        · exact isInitialized
        · rwa [Function.update_of_ne fun equal => same (congrArg setup.pipeline equal)]
            at isInitialized
  · rw [metalSwitch]
    rw [lastConfigured] at isOwner
    by_cases wasInitialized : st.initialized next.runner = true
    · rw [if_pos wasInitialized] at first
      rw [if_pos ((ok.initialized next.runner).mp wasInitialized)] at isOwner
      rw [first]
      exact ok.connects owner isOwner
    · rw [if_neg wasInitialized] at first
      rw [if_neg fun now => wasInitialized ((ok.initialized next.runner).mpr now)] at isOwner
      cases isOwner
      obtain ⟨s, configures, rfl⟩ := first
      exact configures.realises documented fits input (ids _)

theorem StreamRun.ok (documented : metal.Documented operatorPorts ports) (fits : ports ≤ 8)
    (input : 0 < ports) (ids : ∀ p, ∀ id ∈ setup.operators p, id.toNat < ports)
    (run : StreamRun metal selector setup history st) : StreamsOk metal setup history st := by
  induction run with
  | start runners pipelines =>
    refine ⟨fun r => ?_, fun r initialized => ?_, fun owner isOwner => ?_⟩
    · rw [runners r]
      exact ⟨fun impossible => absurd impossible Bool.false_ne_true, fun ⟨_, member, _⟩ => by cases member⟩
    · rw [runners r] at initialized
      cases initialized
    · cases isOwner
  | round before step ih => exact ih.round documented fits input ids step

/-! ## Every run -/

theorem exists_configuresStreams (metal : AxiSwitch σ) {operators : List UInt8}
    (ids : ∀ id ∈ operators, id.toNat < 8) (s : σ) :
    ∃ s', ConfiguresStreams metal operators s s' := by
  obtain ⟨job, configured⟩ := exists_configureSwitch ids (List.replicate sizeofMembus (byte 0))
  exact ⟨_, _, job, _, 0, Nat.le_of_eq List.length_replicate.symm, configured, holdsAt_zero job, rfl⟩

/-- Every round comes as far as its data source and its data sink let it. -/
theorem exists_runnerRuns (metal : AxiSwitch σ) (selector : AxiSwitch τ)
    (ids : ∀ p, ∀ id ∈ setup.operators p, id.toNat < 8)
    (round : RunnerRound ρ) (st : Streams ρ π σ τ) :
    ∃ st', Streams.RunnerRuns metal selector setup round st st' := by
  have configures : ∀ (p : π) setCached (st : Streams ρ π σ τ), ∃ st',
      Streams.ConfiguresSwitch metal setup p setCached st st' := by
    intro p setCached st
    obtain ⟨s, configured⟩ := exists_configuresStreams metal (ids p) st.metalSwitch
    exact ⟨_, s, configured, rfl⟩
  have first : ∃ configured, if st.initialized round.runner then configured = st
      else Streams.ConfiguresSwitch metal setup (setup.pipeline round.runner) true st configured := by
    split
    · exact ⟨st, rfl⟩
    · exact configures _ true st
  obtain ⟨configured, first⟩ := first
  unfold Streams.RunnerRuns
  dsimp only
  cases round.ends with
  | failed => exact ⟨_, configured, first, rfl⟩
  | idle => exact ⟨_, configured, first, rfl⟩
  | ran source destination needsPreparation =>
    by_cases cached : configured.cachedSwitchConfiguration (setup.pipeline round.runner) = true
    · exact ⟨_, configured, first, _, by rw [if_pos cached], rfl⟩
    · obtain ⟨reconfigured, again⟩ := configures (setup.pipeline round.runner) false _
      exact ⟨_, configured, first, reconfigured, by rw [if_neg cached]; exact again, rfl⟩

theorem exists_streamRun (metal : AxiSwitch σ) (selector : AxiSwitch τ)
    (ids : ∀ p, ∀ id ∈ setup.operators p, id.toNat < 8)
    (history : List (RunnerRound ρ)) (s : σ) (t : τ) :
    ∃ st, StreamRun metal selector setup history st := by
  induction history with
  | nil => exact ⟨⟨fun _ => false, fun _ => false, s, t⟩, .start (fun _ => rfl) fun _ => rfl⟩
  | cons round history ih =>
    obtain ⟨st, run⟩ := ih
    obtain ⟨st', step⟩ := exists_runnerRuns metal selector ids round st
    exact ⟨st', .round run step⟩

/-- In every run, the data of a round comes from its source and goes to its sink.  In between it
goes through the operators of the runner that was the last one to have a round before it was
initialised, and so through those of the round's own runner just if they are the same. -/
theorem streams_run (documented : metal.Documented operatorPorts ports)
    (selects : selector.Documented selectorPorts 3) (fits : ports ≤ 8) (input : 0 < ports)
    (ids : ∀ p, ∀ id ∈ setup.operators p, id.toNat < ports)
    {next : RunnerRound ρ}
    {source destination : Address} {needsPreparation : Bool}
    (ran : next.ends = .ran source destination needsPreparation) {p c : Nat}
    (sourceType : sourcePort source.type = some p) (sinkType : sinkPort destination.type = some c)
    (run : StreamRun metal selector setup (next :: history) st) :
    ∃ owner, lastConfigured (next :: history) = some owner ∧
      selector.route st.dataSelector 0 = some p ∧
      (Delivers (metal.route st.metalSwitch) 0 (setup.ids owner) ↔ (0 :: setup.ids owner).Nodup) ∧
      selector.route st.dataSelector c = some 2 ∧
      (∀ out, out ≠ 0 → out ≠ c → selector.route st.dataSelector out = none) ∧
      (∀ out, out ∉ 0 :: setup.ids owner → metal.route st.metalSwitch out = none) ∧
      ((0 :: setup.ids owner).Nodup →
        (Delivers (metal.route st.metalSwitch) 0 (setup.ids next.runner) ↔
          setup.ids next.runner = setup.ids owner)) := by
  obtain ⟨owner, isOwner⟩ := exists_lastConfigured (List.cons_ne_nil next history)
  have ok := run.ok documented fits input ids
  have connects := ok.connects owner isOwner
  have delivers := delivers_connect_iff (fun _ _ other => other) connects
  have selected : ∃ t, st.dataSelector = selectStreams selector source destination t := by
    cases run with
    | round before step =>
      obtain ⟨configured, -, rest⟩ := step
      simp only [ran] at rest
      obtain ⟨configured', -, rfl⟩ := rest
      exact ⟨_, rfl⟩
  obtain ⟨t, selected⟩ := selected
  obtain ⟨fromSource, toSink, others⟩ := opMemSetConfig_route selects sourceType sinkType
    (s := t)
  rw [selected]
  refine ⟨owner, isOwner, fromSource, delivers, toSink, others, ?_, ?_⟩
  · intro out notMem
    exact connects.disabled (connect_of_notMem notMem)
  · intro distinct
    constructor
    · exact fun own => own.unique (delivers.mpr distinct)
    · intro same
      rw [same]
      exact delivers.mpr distinct

end Invariant

/-- Two runners with one operator each. -/
def twoRunners : Setup Bool Bool where
  pipeline r := r
  operators p := if p then [1] else [2]

/-- A round from host memory to host memory. -/
def hostRound (r : Bool) : RunnerRound Bool :=
  ⟨r, .ran ⟨0, 64, .host, .none⟩ ⟨64, 64, .host, .none⟩ false⟩

/-- If two runners take turns, the third round goes through the operator of the second. -/
theorem streams_run_alternating : ∃ st : Streams Bool Bool _ _,
    StreamRun (plainSwitch operatorPorts 3) (plainSwitch selectorPorts 3) twoRunners
      [hostRound true, hostRound false, hostRound true] st ∧
    Delivers ((plainSwitch operatorPorts 3).route st.metalSwitch) 0 [2] ∧
    ¬ Delivers ((plainSwitch operatorPorts 3).route st.metalSwitch) 0 [1] := by
  have ids : ∀ p, ∀ id ∈ twoRunners.operators p, id.toNat < 3 := by
    intro p id member
    cases p with
    | false => rw [List.mem_singleton.mp member]; decide
    | true => rw [List.mem_singleton.mp member]; decide
  have off : (Nat → Nat) × (Nat → Option Nat) := (fun _ => 0, fun _ => none)
  obtain ⟨st, run⟩ := exists_streamRun (plainSwitch operatorPorts 3)
    (plainSwitch selectorPorts 3)
    (fun p id member => Nat.lt_of_lt_of_le (ids p id member) (by decide))
    [hostRound true, hostRound false, hostRound true] off off
  obtain ⟨owner, isOwner, -, delivers, -, -, -, own⟩ := streams_run
    (plainSwitch_documented operatorPorts 3) (plainSwitch_documented selectorPorts 3) (by decide)
    (by decide) ids rfl rfl rfl run
  have second : owner = false := by
    have computed : lastConfigured [hostRound true, hostRound false, hostRound true] = some false := by
      decide
    rw [computed] at isOwner
    cases isOwner
    rfl
  rw [second] at delivers own
  have idsOfSecond : twoRunners.ids false = [2] := rfl
  have idsOfFirst : twoRunners.ids (hostRound true).runner = [1] := rfl
  rw [idsOfSecond] at delivers own
  rw [idsOfFirst] at own
  refine ⟨st, run, delivers.mpr (by decide), fun first => ?_⟩
  exact absurd ((own (by decide)).mp first) (by decide)

end MetalFs.Pipeline
