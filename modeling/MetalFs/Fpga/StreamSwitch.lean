import MetalFs.Lib.Routing
import MetalFs.Fpga.Membus
import MetalFs.Fpga.PartialTransfers

/-!
# The stream switches

The operators are connected by an AXI stream switch, operator `id` with its ports `id` and the input
and output of the FPGA with its ports 0.  `Pipeline::configureSwitch` writes the table for a list of
operators into a job, and `action_configure_streams` of `mtl_jobs.cpp` copies it to the registers of
the switch.  A second switch, the data selector, connects the ports 0 with the DataMover, the stream
generator or the stream sink; `op_mem_set_config` sets it for each run.

The switches are not part of the sources; `Documented` says what their registers do.
-/

namespace MetalFs.Fpga

open Routing

/-! ## The switch -/

/-- An AXI stream switch, by its registers and the connections that are in use: the input for each
output. -/
structure AxiSwitch (σ : Type) where
  write : σ → Nat → Nat → σ
  read : σ → Nat → Nat
  route : σ → Nat → Option Nat

/-- `AXI_STREAM_SWITCH_MAPPING_CONFIG_OFFSET`. -/
def mappingConfigOffset : Nat := 0x40 / 4

/-- The input that a mapping register selects. -/
def selectedInput (register : Nat) : Option Nat :=
  if register < 2 ^ 31 then some (register % 16) else none

section Registers

variable {σ : Type} (switch : AxiSwitch σ)

/-- `switch_set_mapping`. -/
def switchSetMapping (s : σ) (dataIn dataOut : Nat) : σ :=
  switch.write s (mappingConfigOffset + dataOut) dataIn

/-- `switch_disable_output`. -/
def switchDisableOutput (s : σ) (dataOut : Nat) : σ :=
  switch.write s (mappingConfigOffset + dataOut) 0x80000000

/-- `switch_commit`. -/
def switchCommit (s : σ) : σ := switch.write s 0 2

/-- What the mapping registers of a switch with `ports` ports ask for. -/
def AxiSwitch.table (ports : Nat) (s : σ) (out : Nat) : Option Nat :=
  if out < ports then selectedInput (switch.read s (mappingConfigOffset + out)) else none

/-- The mapping registers keep what is written.  They come into use with the next commit, as far as
the connections are possible and no input is asked for twice. -/
structure AxiSwitch.Documented (possible : Nat → Nat → Prop) (ports : Nat) : Prop where
  read_mapping : ∀ s out value, out < ports →
    switch.read (switch.write s (mappingConfigOffset + out) value) (mappingConfigOffset + out) =
      value
  read_other : ∀ s out register value, out < ports → register ≠ mappingConfigOffset + out →
    switch.read (switch.write s register value) (mappingConfigOffset + out) =
      switch.read s (mappingConfigOffset + out)
  commit : ∀ s, Realises possible (switch.route (switch.write s 0 2)) (switch.table ports s)

end Registers

/-- The connections of a switch that prefers the output with the lowest number. -/
def settle (possible : Nat → Nat → Prop) [∀ out input, Decidable (possible out input)]
    (table : Nat → Option Nat) (out : Nat) : Option Nat :=
  (table out).filter fun input =>
    possible out input ∧ ∀ out' < out, table out' ≠ some input

/-- A switch that does what is documented, as its registers and its connections. -/
def plainSwitch (possible : Nat → Nat → Prop) [∀ out input, Decidable (possible out input)]
    (ports : Nat) : AxiSwitch ((Nat → Nat) × (Nat → Option Nat)) where
  write s register value :=
    (Function.update s.1 register value,
      if register = 0 ∧ value = 2 then
        settle possible fun out =>
          if out < ports then selectedInput (s.1 (mappingConfigOffset + out)) else none
      else s.2)
  read s register := s.1 register
  route s := s.2

theorem realises_settle {possible : Nat → Nat → Prop}
    [∀ out input, Decidable (possible out input)] (table : Nat → Option Nat) :
    Realises possible (settle possible table) table := by
  constructor
  · intro out input connected
    exact (Option.filter_eq_some_iff.mp connected).1
  · intro out input asks allowed alone
    refine Option.filter_eq_some_iff.mpr ⟨asks, decide_eq_true ⟨allowed, ?_⟩⟩
    intro out' before also
    rw [alone out' also] at before
    exact Nat.lt_irrefl out before

theorem plainSwitch_documented (possible : Nat → Nat → Prop)
    [∀ out input, Decidable (possible out input)] (ports : Nat) :
    (plainSwitch possible ports).Documented possible ports := by
  constructor
  · exact fun s out value _ => Function.update_self _ _ _
  · exact fun s out register value _ different => Function.update_of_ne (Ne.symm different) _ _
  · exact fun s => realises_settle _

/-! ## The table of a pipeline -/

/-- `disable` of `Pipeline::configureSwitch`. -/
def disable : Nat := 0x80000000

/-- The loop of `Pipeline::configureSwitch` and the assignment behind it, from an operator on: the
words of the job, unless one lies outside. -/
def configureSwitchLoop (jobStruct : List Nat) (previousStream : UInt8) :
    List UInt8 → Option (List Nat)
  | [] => some (jobStruct.set 0 previousStream.toNat)
  | currentStream :: operators =>
    if currentStream.toNat < 8 then
      configureSwitchLoop (jobStruct.set currentStream.toNat previousStream.toNat) currentStream
        operators
    else none

/-- The job of `Pipeline::configureSwitch` for the stream ids of the operators, in memory that is
not initialised. -/
def configureSwitch (memory : List Byte) (operators : List UInt8) : Option (List Byte) :=
  (configureSwitchLoop (List.replicate 8 disable) 0 operators).map fun jobStruct =>
    jobStruct.flatMap (beBytes 4) ++ memory.drop (4 * 8)

/-- `action_configure_streams`. -/
def actionConfigureStreams {σ : Type} (switch : AxiSwitch σ) (s : σ) (memIn : Nat → Nat)
    (jobAddress : Nat) : σ :=
  let line := memIn (mfbAddress jobAddress)
  let s := switchSetMapping switch s (mtlGet32be (0 * 4) line) 0
  let s := switchSetMapping switch s (mtlGet32be (1 * 4) line) 1
  let s := switchSetMapping switch s (mtlGet32be (2 * 4) line) 2
  let s := switchSetMapping switch s (mtlGet32be (3 * 4) line) 3
  let s := switchSetMapping switch s (mtlGet32be (4 * 4) line) 4
  let s := switchSetMapping switch s (mtlGet32be (5 * 4) line) 5
  let s := switchSetMapping switch s (mtlGet32be (6 * 4) line) 6
  let s := switchSetMapping switch s (mtlGet32be (7 * 4) line) 7
  switchCommit switch s

/-- The metal switch connects no operator with itself. -/
def operatorPorts (out input : Nat) : Prop := out = 0 ∨ out ≠ input

instance (out input : Nat) : Decidable (operatorPorts out input) :=
  inferInstanceAs (Decidable (out = 0 ∨ out ≠ input))

/-! ## The data selector -/

/-- `op_mem_set_config`. -/
def opMemSetConfig {σ : Type} (switch : AxiSwitch σ) (address : Address) (read : Bool) (s : σ) : σ :=
  let s :=
    if read then
      match address.type with
      | .host | .cardDRAM | .nvme => switchSetMapping switch s 0 0
      | .random => switchSetMapping switch s 1 0
      | .null => s
    else
      match address.type with
      | .host | .cardDRAM | .nvme => switchDisableOutput switch (switchSetMapping switch s 2 1) 2
      | .null => switchSetMapping switch (switchDisableOutput switch s 1) 2 2
      | .random => s
  switchCommit switch s

/-- The data selector connects the inputs that carry data to the operators with output 0, and the
one that carries data from the operators with the others. -/
def selectorPorts (out input : Nat) : Prop := out = 0 ↔ input ≠ 2

instance (out input : Nat) : Decidable (selectorPorts out input) :=
  inferInstanceAs (Decidable (out = 0 ↔ input ≠ 2))

/-! ## Registers and tables -/

theorem selectedInput_of_lt {input : Nat} (small : input < 16) : selectedInput input = some input := by
  rw [selectedInput, if_pos (by omega), Nat.mod_eq_of_lt small]

namespace AxiSwitch.Documented

variable {σ : Type} {switch : AxiSwitch σ} {possible : Nat → Nat → Prop} {ports : Nat} {s : σ}

theorem table_setMapping (documented : switch.Documented possible ports) {dataIn dataOut : Nat}
    (below : dataOut < ports) : switch.table ports (switchSetMapping switch s dataIn dataOut) =
      Function.update (switch.table ports s) dataOut (selectedInput dataIn) := by
  funext out
  unfold AxiSwitch.table switchSetMapping
  by_cases same : out = dataOut
  · rw [same, Function.update_self, if_pos below, documented.read_mapping s _ _ below]
  · rw [Function.update_of_ne same]
    split
    · rename_i inside
      rw [documented.read_other s out _ _ inside fun equal => same (Nat.add_left_cancel equal).symm]
    · rfl

/-- Mappings of ports that the switch does not have change nothing. -/
theorem table_setMapping_of_le (documented : switch.Documented possible ports)
    {dataIn dataOut : Nat} (outside : ports ≤ dataOut) :
    switch.table ports (switchSetMapping switch s dataIn dataOut) = switch.table ports s := by
  funext out
  unfold AxiSwitch.table switchSetMapping
  split
  · rename_i inside
    rw [documented.read_other s out _ _ inside fun equal => ?_]
    have same := Nat.add_left_cancel equal
    omega
  · rfl

theorem table_commit (documented : switch.Documented possible ports) :
    switch.table ports (switchCommit switch s) = switch.table ports s := by
  funext out
  unfold AxiSwitch.table switchCommit
  split
  · rename_i inside
    rw [documented.read_other s out 0 2 inside]
    unfold mappingConfigOffset
    omega
  · rfl

theorem realises (documented : switch.Documented possible ports) :
    Realises possible (switch.route (switchCommit switch s)) (switch.table ports s) :=
  documented.commit s

/-- Mappings that are written one behind the other. -/
theorem table_foldl (documented : switch.Documented possible ports) (mapping : Nat → Nat) (n : Nat)
    (out : Nat) : switch.table ports ((List.range n).foldl
        (fun s k => switchSetMapping switch s (mapping k) k) s) out =
      if out < n ∧ out < ports then selectedInput (mapping out) else switch.table ports s out := by
  induction n with
  | zero => rw [if_neg fun both => Nat.not_lt_zero out both.1]; rfl
  | succ n ih =>
    rw [List.range_succ, List.foldl_append, List.foldl_cons, List.foldl_nil]
    by_cases inside : n < ports
    · rw [documented.table_setMapping inside]
      by_cases here : out = n
      · rw [here, Function.update_self, if_pos ⟨Nat.lt_succ_self n, inside⟩]
      · rw [Function.update_of_ne here, ih]
        have below : out < n + 1 ∧ out < ports ↔ out < n ∧ out < ports := by omega
        simp only [below]
    · rw [documented.table_setMapping_of_le (Nat.le_of_not_lt inside), ih]
      have below : out < n + 1 ∧ out < ports ↔ out < n ∧ out < ports := by omega
      simp only [below]

end AxiSwitch.Documented

/-! ## The job -/

/-- The table that the words of a job ask for. -/
def wordsTable (ports : Nat) (jobStruct : List Nat) (out : Nat) : Option Nat :=
  if out < ports then jobStruct[out]?.bind selectedInput else none

section Job

variable {ports : Nat} {jobStruct jobStruct' : List Nat} {previousStream : UInt8}
  {operators : List UInt8}

theorem wordsTable_set {out : Nat} (below : out < ports) (inside : out < jobStruct.length)
    (value : Nat) : wordsTable ports (jobStruct.set out value) =
      Function.update (wordsTable ports jobStruct) out (selectedInput value) := by
  funext k
  unfold wordsTable
  by_cases same : k = out
  · rw [same, Function.update_self, if_pos below, List.getElem?_set_self inside, Option.bind_some]
  · rw [Function.update_of_ne same, List.getElem?_set_ne (Ne.symm same)]

theorem wordsTable_replicate_disable :
    wordsTable ports (List.replicate 8 disable) = fun _ => none := by
  funext out
  unfold wordsTable
  split
  · rw [List.getElem?_replicate]
    split
    · rfl
    · rfl
  · rfl

theorem disable_words : ∀ word ∈ List.replicate 8 disable, word < 256 ^ 4 := by
  intro word member
  rw [List.eq_of_mem_replicate member]
  decide

/-- The loop connects the operators one behind the other. -/
theorem configureSwitchLoop_spec (jobStruct : List Nat) (previousStream : UInt8)
    (eight : jobStruct.length = 8) (words : ∀ word ∈ jobStruct, word < 256 ^ 4)
    (fits : ports ≤ 8) (input : 0 < ports)
    (previous : previousStream.toNat < ports) (ids : ∀ id ∈ operators, id.toNat < ports) :
    ∃ jobStruct', configureSwitchLoop jobStruct previousStream operators = some jobStruct' ∧
      jobStruct'.length = 8 ∧ (∀ word ∈ jobStruct', word < 256 ^ 4) ∧
      wordsTable ports jobStruct' = connect 0 previousStream.toNat (operators.map UInt8.toNat)
        (wordsTable ports jobStruct) := by
  have byte : ∀ id : UInt8, id.toNat < 256 ^ 4 := fun id => by
    have := id.toNat_lt
    omega
  have set_words : ∀ k, ∀ word ∈ jobStruct.set k previousStream.toNat, word < 256 ^ 4 := by
    intro k word member
    rcases List.mem_or_eq_of_mem_set member with old | rfl
    · exact words word old
    · exact byte previousStream
  induction operators generalizing jobStruct previousStream with
  | nil =>
    refine ⟨_, rfl, by rw [List.length_set, eight], set_words 0, ?_⟩
    rw [wordsTable_set input (by omega), selectedInput_of_lt (by omega)]
    rfl
  | cons currentStream operators ih =>
    have current := ids currentStream List.mem_cons_self
    have later : ∀ id ∈ operators, id.toNat < ports :=
      fun id member => ids id (List.mem_cons_of_mem _ member)
    rw [configureSwitchLoop, if_pos (by omega)]
    obtain ⟨jobStruct', run, length, bounds, table⟩ :=
      ih _ currentStream (by rw [List.length_set, eight])
      (set_words currentStream.toNat) current later (by
        intro k word member
        rcases List.mem_or_eq_of_mem_set member with old | rfl
        · exact set_words currentStream.toNat word old
        · exact byte currentStream)
    refine ⟨jobStruct', run, length, bounds, ?_⟩
    rw [table, wordsTable_set current (by omega), selectedInput_of_lt (by omega)]
    rfl

/-- There is a job for operators with ids below eight. -/
theorem exists_configureSwitch (ids : ∀ id ∈ operators, id.toNat < 8) (memory : List Byte) :
    ∃ job, configureSwitch memory operators = some job := by
  obtain ⟨jobStruct, run, -⟩ := configureSwitchLoop_spec (List.replicate 8 disable) 0
    List.length_replicate disable_words (Nat.le_refl 8) (by decide) (by decide) ids
  rw [configureSwitch, run]
  exact ⟨_, rfl⟩

end Job

section Configure

variable {σ : Type} {switch : AxiSwitch σ} {ports : Nat} {operators : List UInt8}
  {memory job : List Byte} {memIn : Nat → Nat} {jobAddress : Nat} {s : σ}

theorem length_words {jobStruct : List Nat} (eight : jobStruct.length = 8) :
    (jobStruct.flatMap (beBytes 4)).length = 4 * 8 := by
  have width : ∀ word, (beBytes 4 word).length = 4 := length_beBytes 4
  rw [List.length_flatMap, List.map_congr_left fun word _ => width word, List.map_const',
    List.sum_replicate, eight]
  rfl

/-- A word of the job, as the FPGA reads it. -/
theorem mtlGet32be_job {jobStruct : List Nat} (eight : jobStruct.length = 8)
    (words : ∀ word ∈ jobStruct, word < 256 ^ 4) {rest : List Byte}
    (line : sizeofMembus ≤ (jobStruct.flatMap (beBytes 4) ++ rest).length)
    (holds : HoldsAt memIn jobAddress (jobStruct.flatMap (beBytes 4) ++ rest)) {k : Nat}
    (below : k < jobStruct.length) :
    mtlGet32be (k * 4) (memIn (mfbAddress jobAddress)) = jobStruct[k] := by
  have size : sizeofMembus = 64 := rfl
  have length := length_words eight
  have first := holds 0 (by rw [Nat.zero_add, Nat.mul_one]; exact line)
  rw [Nat.add_zero, busLine, Nat.mul_zero, List.drop_zero] at first
  rw [first, mtlGet32be_ofLeBytes (by rw [List.length_take]; omega),
    slice_take _ (by omega), List.drop_append_of_le_length (by omega),
    List.take_append_of_le_length (by rw [List.length_drop]; omega), Nat.mul_comm k 4,
    slice_flatMap (length_beBytes 4) jobStruct below, ofBeBytes_beBytes,
    Nat.mod_eq_of_lt (words _ (List.getElem_mem below))]

/-- After the job for a list of operators the registers of the switch ask for these operators one
behind the other, and for nothing else. -/
theorem actionConfigureStreams_table {possible : Nat → Nat → Prop}
    (documented : switch.Documented possible ports) (fits : ports ≤ 8) (input : 0 < ports)
    (ids : ∀ id ∈ operators, id.toNat < ports) (configured : configureSwitch memory operators =
      some job) (line : sizeofMembus ≤ memory.length) (holds : HoldsAt memIn jobAddress job) :
    switch.table ports (actionConfigureStreams switch s memIn jobAddress) =
      connect 0 0 (operators.map UInt8.toNat) fun _ => none := by
  have size : sizeofMembus = 64 := rfl
  obtain ⟨jobStruct, run, eight, words, table⟩ := configureSwitchLoop_spec
    (List.replicate 8 disable) 0 List.length_replicate disable_words fits input input ids
  rw [configureSwitch, run, Option.map_some, Option.some.injEq] at configured
  subst configured
  rw [wordsTable_replicate_disable] at table
  have word : ∀ out < 8, mtlGet32be (out * 4) (memIn (mfbAddress jobAddress)) = jobStruct.getD out 0 := by
    intro out below
    rw [mtlGet32be_job eight words ?_ holds (by omega), List.getD_eq_getElem]
    rw [List.length_append, List.length_drop, length_words eight]
    omega
  have unrolled : actionConfigureStreams switch s memIn jobAddress = switchCommit switch
      ((List.range 8).foldl (fun s k => switchSetMapping switch s
        (mtlGet32be (k * 4) (memIn (mfbAddress jobAddress))) k) s) := rfl
  rw [unrolled, documented.table_commit]
  refine Eq.trans ?_ table
  funext out
  rw [documented.table_foldl (fun k => mtlGet32be (k * 4) (memIn (mfbAddress jobAddress))), wordsTable]
  by_cases inside : out < ports
  · rw [if_pos ⟨by omega, inside⟩, if_pos inside, word out (by omega),
      List.getElem?_eq_getElem (by omega), Option.bind_some, List.getD_eq_getElem]
  · rw [if_neg fun both => inside both.2, if_neg inside, AxiSwitch.table, if_neg inside]

end Configure

/-! ## The selection -/

/-- The input of the data selector that carries the data of a source. -/
def sourcePort : AddressType → Option Nat
  | .host | .cardDRAM | .nvme => some 0
  | .random => some 1
  | .null => none

/-- The output of the data selector that leads to a sink. -/
def sinkPort : AddressType → Option Nat
  | .host | .cardDRAM | .nvme => some 1
  | .null => some 2
  | .random => none

section Select

variable {σ : Type} {switch : AxiSwitch σ} {possible : Nat → Nat → Prop} {s : σ}
  {source destination : Address} {p c : Nat}

theorem table_source (documented : switch.Documented possible 3)
    (port : sourcePort source.type = some p) :
    switch.table 3 (opMemSetConfig switch source true s) =
      Function.update (switch.table 3 s) 0 (some p) := by
  unfold opMemSetConfig
  rw [documented.table_commit]
  cases type : source.type with
  | null => rw [type] at port; cases port
  | host | cardDRAM | nvme | random =>
    rw [type] at port
    cases port
    exact documented.table_setMapping (by decide)

theorem table_destination (documented : switch.Documented possible 3)
    (port : sinkPort destination.type = some c) (out : Nat) :
    switch.table 3 (opMemSetConfig switch destination false s) out =
      if out = c then some 2 else if out = 0 then switch.table 3 s 0 else none := by
  have disabled : ∀ t dataOut, dataOut < 3 → switch.table 3 (switchDisableOutput switch t dataOut) =
      Function.update (switch.table 3 t) dataOut none :=
    fun t dataOut below => documented.table_setMapping below
  have outside : ∀ t k, switch.table 3 t (k + 3) = none := by
    intro t k
    rw [AxiSwitch.table, if_neg (by omega)]
  unfold opMemSetConfig
  rw [documented.table_commit]
  cases type : destination.type with
  | random => rw [type] at port; cases port
  | null =>
    rw [type] at port
    cases port
    rw [if_neg Bool.false_ne_true, documented.table_setMapping (by decide), disabled s 1 (by decide)]
    match out with
    | 0 | 1 | 2 => rfl
    | k + 3 => exact outside s k
  | host | cardDRAM | nvme =>
    rw [type] at port
    cases port
    rw [if_neg Bool.false_ne_true, disabled _ 2 (by decide), documented.table_setMapping (by decide)]
    match out with
    | 0 | 1 | 2 => rfl
    | k + 3 => exact outside s k

theorem opMemSetConfig_realises (documented : switch.Documented possible 3) {read : Bool} :
    Realises possible (switch.route (opMemSetConfig switch destination read s))
      (switch.table 3 (opMemSetConfig switch destination read s)) := by
  unfold opMemSetConfig
  dsimp only
  rw [documented.table_commit]
  exact documented.realises

/-- After both configurations the source leads to the operators, and these to the sink only. -/
theorem opMemSetConfig_route (documented : switch.Documented selectorPorts 3)
    (input : sourcePort source.type = some p) (output : sinkPort destination.type = some c) :
    let s' := opMemSetConfig switch destination false (opMemSetConfig switch source true s)
    switch.route s' 0 = some p ∧ switch.route s' c = some 2 ∧
      ∀ out, out ≠ 0 → out ≠ c → switch.route s' out = none := by
  intro s'
  have table : ∀ out, switch.table 3 s' out =
      if out = c then some 2 else if out = 0 then some p else none := by
    intro out
    rw [table_destination documented output, table_source documented input, Function.update_self]
  have realises : Realises selectorPorts (switch.route s') (switch.table 3 s') :=
    opMemSetConfig_realises documented
  have carries : p ≠ 2 := by
    intro same
    cases type : source.type <;> rw [type] at input <;> cases input <;> cases same
  have inward : c ≠ 0 := by
    intro same
    cases type : destination.type <;> rw [type] at output <;> cases output <;> cases same
  refine ⟨realises.connects 0 p ?_ ?_ ?_, realises.connects c 2 ?_ ?_ ?_, ?_⟩
  · rw [table, if_neg (Ne.symm inward), if_pos rfl]
  · exact ⟨fun _ => carries, fun _ => rfl⟩
  · intro out value
    rw [table] at value
    split at value
    · cases value
      exact absurd rfl carries
    · split at value
      · assumption
      · cases value
  · rw [table, if_pos rfl]
  · exact ⟨fun same => absurd same inward, fun different => absurd rfl different⟩
  · intro out value
    rw [table] at value
    split at value
    · assumption
    · split at value
      · cases value
        exact absurd rfl carries
      · cases value
  · intro out first second
    refine realises.disabled ?_
    rw [table, if_neg second, if_neg first]

end Select

end MetalFs.Fpga
