import MetalFs.Fpga.Membus
import MetalFs.Driver.ProfilingResults

/-!
# The performance monitor

The FPGA counts what happens on the streams: ten counters, each for a metric of a slot, and a
clock.  `axi_perfmon.cpp` selects the metrics, resets the counters and writes them into a line
of host memory; a `RunOperators` job lets them run.  The monitor is not part of the sources;
`Documented` says what its registers do.

The host has the two streams configured once.  In each round it has the counters reset before
the job and read afterwards.
-/

namespace MetalFs.Fpga

open Driver.Profiling

/-! ## Words put into a line -/

/-- `x(hi, lo) = value` of an `ap_uint`. -/
def setBits (x hi lo value : Nat) : Nat :=
  x / 2 ^ (hi + 1) * 2 ^ (hi + 1) + value % 2 ^ (hi + 1 - lo) * 2 ^ lo + x % 2 ^ lo

/-- `mtl_set32be`. -/
def mtlSet32be (lowestByte busline value : Nat) : Nat :=
  let pattern := bits value 31 24 + bits value 23 16 * 2 ^ 8 + bits value 15 8 * 2 ^ 16 +
    bits value 7 0 * 2 ^ 24
  setBits busline (lowestByte * 8 + 31) (lowestByte * 8) pattern

/-- `mtl_set64be`. -/
def mtlSet64be (lowestByte busline value : Nat) : Nat :=
  let pattern := bits value 63 56 + bits value 55 48 * 2 ^ 8 + bits value 47 40 * 2 ^ 16 +
    bits value 39 32 * 2 ^ 24 + bits value 31 24 * 2 ^ 32 + bits value 23 16 * 2 ^ 40 +
    bits value 15 8 * 2 ^ 48 + bits value 7 0 * 2 ^ 56
  setBits busline (lowestByte * 8 + 63) (lowestByte * 8) pattern

theorem setBits_ofLeBytes {first old new rest : List Byte} {w : Nat}
    (oldWidth : old.length = w + 1) (newWidth : new.length = w + 1) :
    setBits (ofLeBytes (first ++ old ++ rest)) (first.length * 8 + (w * 8 + 7)) (first.length * 8)
      (ofLeBytes new) = ofLeBytes (first ++ new ++ rest) := by
  have power : ∀ n, 2 ^ (n * 8) = 256 ^ n := fun n => by rw [Nat.mul_comm]; exact pow_mul 2 8 n
  have width : first.length * 8 + (w * 8 + 7) + 1 - first.length * 8 = (w + 1) * 8 := by omega
  have top : first.length * 8 + (w * 8 + 7) + 1 = (first ++ old).length * 8 := by
    rw [List.length_append, oldWidth]
    omega
  have low := ofLeBytes_lt new
  rw [newWidth] at low
  rw [setBits, width, top, power, power, power, ← ofLeBytes_drop,
    Nat.mod_eq_of_lt low, ← ofLeBytes_take, List.drop_left, List.append_assoc, List.take_left,
    ofLeBytes_append,
    ofLeBytes_append, List.length_append, List.length_append, oldWidth, newWidth]
  ring

theorem bits_byte (value i : Nat) :
    bits value (8 * i + 7) (8 * i) = (byte (value / 256 ^ i)).val := by
  have width : 8 * i + 7 + 1 - 8 * i = 8 := by omega
  rw [bits, width, pow_mul 2 8 i]
  rfl

theorem beBytes_four (value : Nat) : beBytes 4 value =
    [byte (value / 256 ^ 3), byte (value / 256 ^ 2), byte (value / 256 ^ 1),
      byte (value / 256 ^ 0)] := by
  simp only [beBytes, leBytes, List.reverse_cons, List.reverse_nil, List.nil_append,
    List.cons_append, Nat.div_div_eq_div_mul, pow_zero, Nat.div_one, Nat.reduceMul, Nat.reducePow]

theorem beBytes_eight (value : Nat) : beBytes 8 value =
    [byte (value / 256 ^ 7), byte (value / 256 ^ 6), byte (value / 256 ^ 5),
      byte (value / 256 ^ 4), byte (value / 256 ^ 3), byte (value / 256 ^ 2),
      byte (value / 256 ^ 1), byte (value / 256 ^ 0)] := by
  simp only [beBytes, leBytes, List.reverse_cons, List.reverse_nil, List.nil_append,
    List.cons_append, Nat.div_div_eq_div_mul, pow_zero, Nat.div_one, Nat.reduceMul, Nat.reducePow]

theorem mtlSet32be_ofLeBytes {first old rest : List Byte} {k : Nat} (place : first.length = k)
    (width : old.length = 4) (value : Nat) :
    mtlSet32be k (ofLeBytes (first ++ old ++ rest)) value =
      ofLeBytes (first ++ beBytes 4 value ++ rest) := by
  have pattern : bits value 31 24 + bits value 23 16 * 2 ^ 8 + bits value 15 8 * 2 ^ 16 +
      bits value 7 0 * 2 ^ 24 = ofLeBytes (beBytes 4 value) := by
    have byte0 := bits_byte value 0
    have byte1 := bits_byte value 1
    have byte2 := bits_byte value 2
    have byte3 := bits_byte value 3
    rw [byte0, byte1, byte2, byte3, beBytes_four]
    simp only [ofLeBytes]
    ring
  subst place
  rw [mtlSet32be, pattern]
  exact setBits_ofLeBytes (w := 3) width (length_beBytes 4 value)

theorem mtlSet64be_ofLeBytes {first old rest : List Byte} {k : Nat} (place : first.length = k)
    (width : old.length = 8) (value : Nat) :
    mtlSet64be k (ofLeBytes (first ++ old ++ rest)) value =
      ofLeBytes (first ++ beBytes 8 value ++ rest) := by
  have pattern : bits value 63 56 + bits value 55 48 * 2 ^ 8 + bits value 47 40 * 2 ^ 16 +
      bits value 39 32 * 2 ^ 24 + bits value 31 24 * 2 ^ 32 + bits value 23 16 * 2 ^ 40 +
      bits value 15 8 * 2 ^ 48 + bits value 7 0 * 2 ^ 56 = ofLeBytes (beBytes 8 value) := by
    have byte0 := bits_byte value 0
    have byte1 := bits_byte value 1
    have byte2 := bits_byte value 2
    have byte3 := bits_byte value 3
    have byte4 := bits_byte value 4
    have byte5 := bits_byte value 5
    have byte6 := bits_byte value 6
    have byte7 := bits_byte value 7
    rw [byte0, byte1, byte2, byte3, byte4, byte5, byte6, byte7, beBytes_eight]
    simp only [ofLeBytes]
    ring
  subst place
  rw [mtlSet64be, pattern]
  exact setBits_ofLeBytes (w := 7) width (length_beBytes 8 value)

/-! ## The monitor -/

/-- What happens on the slots in a clock cycle: by how much the metrics grow. -/
abbrev SlotEvents := Nat → Nat → Nat

/-- The registers of the monitor that matter. -/
structure PerfmonState where
  control : Nat
  selection : Nat → Nat
  globalClock : Nat
  counters : Nat → Nat

/-- The slot and the metric that a counter is for: a byte of a metric selection register. -/
def PerfmonState.selected (state : PerfmonState) (k : Nat) : Nat × Nat :=
  let selector := bits (state.selection (k / 4)) (k % 4 * 8 + 7) (k % 4 * 8)
  (bits selector 7 5, bits selector 4 0)

/-- A write to the control register; its bits 1 and 17 reset the counters and the clock. -/
def PerfmonState.writeControl (state : PerfmonState) (value : Nat) : PerfmonState where
  control := value
  selection := state.selection
  globalClock := if value.testBit 17 then 0 else state.globalClock
  counters := if value.testBit 1 then fun _ => 0 else state.counters

/-- A clock cycle; the bits 0 and 16 of the control register let the counters and the clock run. -/
def PerfmonState.cycle (state : PerfmonState) (events : SlotEvents) : PerfmonState where
  control := state.control
  selection := state.selection
  globalClock := state.globalClock + (state.control.testBit 16).toNat
  counters k :=
    if state.control.testBit 0 then
      state.counters k + events (state.selected k).1 (state.selected k).2
    else state.counters k

/-- An AXI performance monitor. -/
structure Perfmon (σ : Type) where
  write : σ → Nat → Nat → σ
  read : σ → Nat → Nat
  cycle : σ → SlotEvents → σ

/-- The monitor behaves like the state that `view` gives. -/
structure Perfmon.Documented {σ : Type} (monitor : Perfmon σ) (view : σ → PerfmonState) :
    Prop where
  control : ∀ s value, view (monitor.write s (0x300 / 4) value) = (view s).writeControl value
  selection : ∀ s j value, j < 3 → view (monitor.write s (0x44 / 4 + j) value) =
    { view s with selection := Function.update (view s).selection j value }
  cycle : ∀ s events, view (monitor.cycle s events) = (view s).cycle events
  clockHigh : ∀ s, monitor.read s 0 = (view s).globalClock / 2 ^ 32 % 2 ^ 32
  clockLow : ∀ s, monitor.read s 1 = (view s).globalClock % 2 ^ 32
  counter : ∀ s k, k < 10 → monitor.read s ((0x100 + k * 4 * 4) / 4) =
    (view s).counters k % 2 ^ 32

/-! ## The jobs -/

/-- `stream_id << ((k * 8) + 5)`, of which 32 bits are used. -/
def shiftedSlot (streamId k : Nat) : Nat := streamId * 2 ^ (k * 8 + 5) % 2 ^ 32

def metrics0 (streamId0 : Nat) : Nat :=
  0x15121110 ||| shiftedSlot streamId0 0 ||| shiftedSlot streamId0 1 ||| shiftedSlot streamId0 2 |||
    shiftedSlot streamId0 3

def metrics1 (streamId0 streamId1 : Nat) : Nat :=
  0x12111016 ||| shiftedSlot streamId0 0 ||| shiftedSlot streamId1 1 ||| shiftedSlot streamId1 2 |||
    shiftedSlot streamId1 3

def metrics2 (streamId1 : Nat) : Nat :=
  0x00001615 ||| shiftedSlot streamId1 0 ||| shiftedSlot streamId1 1

section Jobs

variable {σ : Type} (monitor : Perfmon σ)

/-- `action_configure_perfmon`. -/
def actionConfigurePerfmon (s : σ) (streamId0 streamId1 : Nat) : σ :=
  let s := monitor.write s (0x44 / 4) (metrics0 streamId0)
  let s := monitor.write s (0x48 / 4) (metrics1 streamId0 streamId1)
  monitor.write s (0x4C / 4) (metrics2 streamId1)

/-- `perfmon_reset`. -/
def perfmonReset (s : σ) : σ := monitor.write s (0x300 / 4) 0x00020002

/-- `perfmon_enable`. -/
def perfmonEnable (s : σ) : σ := monitor.write s (0x300 / 4) 0x00010001

/-- `perfmon_disable`, which `process_action` has in place. -/
def perfmonDisable (s : σ) : σ := monitor.write s (0x300 / 4) 0

/-- The job `ConfigurePerfmon`; its two numbers become values of `uint8_t`. -/
def configurePerfmon (s : σ) (memIn : Nat → Nat) (jobAddress : Nat) : σ :=
  let line := memIn (mfbAddress jobAddress)
  actionConfigurePerfmon monitor s (mtlGet64be 0 line % 2 ^ 8) (mtlGet64be 8 line % 2 ^ 8)

/-- `action_perfmon_read`, with the line that it writes; the counters are put in one by one. -/
def actionPerfmonRead (s : σ) : Nat :=
  -- The comma of two `ap_uint` puts them behind each other.
  let clock := monitor.read s 0 * 2 ^ 32 + monitor.read s 1
  (List.range 10).foldl
    (fun result k => mtlSet32be (k * 4 + 8) result (monitor.read s ((0x100 + k * 4 * 4) / 4)))
    (mtlSet64be 0 0 clock)

end Jobs

/-! ## The selection -/

/-- The slot and the metric of each counter after the configuration. -/
def metricOf (streamId0 streamId1 k : Nat) : Nat × Nat :=
  match k with
  | 0 => (streamId0, 16)
  | 1 => (streamId0, 17)
  | 2 => (streamId0, 18)
  | 3 => (streamId0, 21)
  | 4 => (streamId0, 22)
  | 5 => (streamId1, 16)
  | 6 => (streamId1, 17)
  | 7 => (streamId1, 18)
  | 8 => (streamId1, 21)
  | _ => (streamId1, 22)

/-- The state of the monitor after the configuration. -/
def PerfmonState.configured (state : PerfmonState) (streamId0 streamId1 : Nat) : PerfmonState :=
  let selection := Function.update state.selection 0 (metrics0 streamId0)
  let selection := Function.update selection 1 (metrics1 streamId0 streamId1)
  { state with selection := Function.update selection 2 (metrics2 streamId1) }

theorem selector_metric : ∀ streamId0 < 8, ∀ streamId1 < 8, ∀ k < 10,
    let selection := [metrics0 streamId0, metrics1 streamId0 streamId1, metrics2 streamId1]
    let selector := bits (selection.getD (k / 4) 0) (k % 4 * 8 + 7) (k % 4 * 8)
    (bits selector 7 5, bits selector 4 0) = metricOf streamId0 streamId1 k := by
  decide +kernel

theorem selected_configured (state : PerfmonState) {streamId0 streamId1 k : Nat}
    (slot0 : streamId0 < 8) (slot1 : streamId1 < 8) (below : k < 10) :
    (state.configured streamId0 streamId1).selected k = metricOf streamId0 streamId1 k := by
  rw [← selector_metric streamId0 slot0 streamId1 slot1 k below]
  have register : k / 4 < 3 := by omega
  have word : ∀ j < 3, (state.configured streamId0 streamId1).selection j =
      [metrics0 streamId0, metrics1 streamId0 streamId1, metrics2 streamId1].getD j 0 := by
    intro j inside
    match j, inside with
    | 0, _ => rfl
    | 1, _ => rfl
    | 2, _ => rfl
  rw [PerfmonState.selected, word _ register]

section Configure

variable {σ : Type} {monitor : Perfmon σ} {view : σ → PerfmonState}

theorem view_configure (documented : monitor.Documented view) (s : σ) (streamId0 streamId1 : Nat) :
    view (actionConfigurePerfmon monitor s streamId0 streamId1) =
      (view s).configured streamId0 streamId1 := by
  have first := documented.selection s 0 (metrics0 streamId0) (by decide)
  have second := fun t => documented.selection t 1 (metrics1 streamId0 streamId1) (by decide)
  have third := fun t => documented.selection t 2 (metrics2 streamId1) (by decide)
  have word1 : 0x48 / 4 = 0x44 / 4 + 1 := rfl
  have word2 : 0x4C / 4 = 0x44 / 4 + 2 := rfl
  rw [actionConfigurePerfmon, word2, third, word1, second, first]
  rfl

/-! ## Counting -/

/-- The cycles that pass between two jobs, or during one. -/
def Perfmon.cycles (monitor : Perfmon σ) (s : σ) (events : List SlotEvents) : σ :=
  events.foldl monitor.cycle s

theorem cycles_stopped (state : PerfmonState) (stopped : state.control.testBit 0 = false)
    (stoppedClock : state.control.testBit 16 = false) (events : List SlotEvents) :
    events.foldl PerfmonState.cycle state = state := by
  induction events with
  | nil => rfl
  | cons event events ih =>
    have still : state.cycle event = state := by
      unfold PerfmonState.cycle
      simp only [stopped, stoppedClock, Bool.false_eq_true, if_false, Bool.toNat_false,
        Nat.add_zero]
    rw [List.foldl_cons, still, ih]

theorem cycles_counting (state : PerfmonState) (counting : state.control.testBit 0 = true)
    (countingClock : state.control.testBit 16 = true) (events : List SlotEvents) :
    events.foldl PerfmonState.cycle state = { state with
      globalClock := state.globalClock + events.length
      counters := fun k => state.counters k +
        (events.map fun event => event (state.selected k).1 (state.selected k).2).sum } := by
  induction events generalizing state with
  | nil => rfl
  | cons event events ih =>
    have once : state.cycle event = { state with
        globalClock := state.globalClock + 1
        counters := fun k =>
          state.counters k + event (state.selected k).1 (state.selected k).2 } := by
      unfold PerfmonState.cycle
      simp only [counting, countingClock, if_true, Bool.toNat_true]
    have tail := ih (state.cycle event) counting countingClock
    rw [List.foldl_cons, tail, once]
    simp only [List.map_cons, List.sum_cons, List.length_cons, PerfmonState.selected,
      Nat.add_assoc, Nat.add_comm 1]

theorem view_cycles (documented : monitor.Documented view) (s : σ) (events : List SlotEvents) :
    view (monitor.cycles s events) = events.foldl PerfmonState.cycle (view s) := by
  induction events generalizing s with
  | nil => rfl
  | cons event events ih =>
    rw [Perfmon.cycles, List.foldl_cons, List.foldl_cons, ← documented.cycle]
    exact ih (monitor.cycle s event)

end Configure

/-! ## The line -/

/-- The bytes of the line that `action_perfmon_read` writes, with `n` counters put in. -/
def perfmonBytes (clock : Nat) (counters : Nat → Nat) (n : Nat) : List Byte :=
  beBytes 8 clock ++ (List.range n).flatMap (fun k => beBytes 4 (counters k)) ++
    List.replicate (56 - 4 * n) (byte 0)

theorem length_perfmonBytes (clock : Nat) (counters : Nat → Nat) {n : Nat} (below : n ≤ 10) :
    (perfmonBytes clock counters n).length = 64 := by
  have table := length_flatMap_range (fun k => length_beBytes 4 (counters k)) n
  rw [perfmonBytes, List.length_append, List.length_append, length_beBytes, table,
    List.length_replicate]
  omega

theorem ofLeBytes_zeros (n : Nat) : ofLeBytes (List.replicate n (byte 0)) = 0 := by
  induction n with
  | zero => rfl
  | succ n ih => rw [List.replicate_succ, ofLeBytes, ih]; rfl

theorem mtlSet32be_perfmonBytes (clock : Nat) (counters : Nat → Nat) {n : Nat} (below : n < 10) :
    mtlSet32be (n * 4 + 8) (ofLeBytes (perfmonBytes clock counters n)) (counters n) =
      ofLeBytes (perfmonBytes clock counters (n + 1)) := by
  have table := length_flatMap_range (fun k => length_beBytes 4 (counters k)) n
  have place : (beBytes 8 clock ++ (List.range n).flatMap fun k => beBytes 4 (counters k)).length =
      n * 4 + 8 := by
    rw [List.length_append, length_beBytes, table]
    omega
  have zeros : List.replicate (56 - 4 * n) (byte 0) =
      List.replicate 4 (byte 0) ++ List.replicate (56 - 4 * (n + 1)) (byte 0) := by
    rw [List.replicate_append_replicate]
    congr 1
    omega
  rw [perfmonBytes, zeros, ← List.append_assoc,
    mtlSet32be_ofLeBytes place (List.length_replicate ..), perfmonBytes, List.range_succ,
    List.flatMap_append, List.flatMap_singleton, List.append_assoc (beBytes 8 clock)]

theorem perfmonBytes_zero (clock : Nat) (counters : Nat → Nat) :
    perfmonBytes clock counters 0 = beBytes 8 clock ++ List.replicate 56 (byte 0) := by
  rw [perfmonBytes, List.range_zero, List.flatMap_nil, List.append_nil, Nat.mul_zero, Nat.sub_zero]

theorem mtlSet64be_zero (clock : Nat) :
    mtlSet64be 0 0 clock = ofLeBytes (beBytes 8 clock ++ List.replicate 56 (byte 0)) := by
  have zeros : ofLeBytes ([] ++ List.replicate 8 (byte 0) ++ List.replicate 56 (byte 0)) = 0 := by
    rw [List.nil_append, List.replicate_append_replicate, ofLeBytes_zeros]
  have first := @mtlSet64be_ofLeBytes [] (List.replicate 8 (byte 0)) (List.replicate 56 (byte 0)) 0
    List.length_nil List.length_replicate clock
  rw [zeros, List.nil_append] at first
  exact first

/-- The counters put in so far are the first of the line. -/
theorem foldl_mtlSet32be (clock : Nat) (counters : Nat → Nat) {n : Nat} (below : n ≤ 10) :
    (List.range n).foldl (fun result k => mtlSet32be (k * 4 + 8) result (counters k))
      (mtlSet64be 0 0 clock) = ofLeBytes (perfmonBytes clock counters n) := by
  induction n with
  | zero => rw [List.range_zero, List.foldl_nil, mtlSet64be_zero, perfmonBytes_zero]
  | succ n ih =>
    rw [List.range_succ, List.foldl_append, ih (Nat.le_of_succ_le below), List.foldl_cons,
      List.foldl_nil, mtlSet32be_perfmonBytes clock counters below]

theorem actionPerfmonRead_eq {σ : Type} (monitor : Perfmon σ) (s : σ) :
    actionPerfmonRead monitor s = ofLeBytes (perfmonBytes
      (monitor.read s 0 * 2 ^ 32 + monitor.read s 1)
      (fun k => monitor.read s ((0x100 + k * 4 * 4) / 4)) 10) :=
  foldl_mtlSet32be _ (fun k => monitor.read s ((0x100 + k * 4 * 4) / 4)) le_rfl

/-- The bytes of a line are those it was made of. -/
theorem leBytes_ofLeBytes (bytes : List Byte) : leBytes bytes.length (ofLeBytes bytes) = bytes := by
  induction bytes with
  | nil => rfl
  | cons first bytes ih =>
    have low : byte (first.val + 256 * ofLeBytes bytes) = first := by
      apply Fin.ext
      rw [byte, Fin.val_ofNat, Nat.add_mul_mod_self_left, Nat.mod_eq_of_lt first.isLt]
    have high : (first.val + 256 * ofLeBytes bytes) / 256 = ofLeBytes bytes := by
      have := first.isLt
      omega
    rw [List.length_cons, ofLeBytes, leBytes, low, high, ih]

/-- What `postRun` takes out of the memory that the job `ReadPerfmonCounters` has written. -/
def perfmonCounters (memory : List Byte) : PerfmonCounters where
  results64 := UInt64.ofNat (ofBeBytes (memory.take 8))
  results32 k := UInt32.ofNat (ofBeBytes ((memory.drop (8 + 4 * k.val)).take 4))

theorem perfmonCounters_perfmonBytes (clock : Nat) (counters : Nat → Nat) :
    perfmonCounters (perfmonBytes clock counters 10) =
      { results64 := UInt64.ofNat clock
        results32 := fun k => UInt32.ofNat (counters k) } := by
  have first : (perfmonBytes clock counters 10).take 8 = beBytes 8 clock := by
    rw [perfmonBytes, List.append_assoc, List.take_left' (length_beBytes 8 clock)]
  have word : ∀ k : Fin 10, ((perfmonBytes clock counters 10).drop (8 + 4 * k.val)).take 4 =
      beBytes 4 (counters k) := by
    intro k
    have width := fun i => length_beBytes 4 (counters i)
    have table := length_flatMap_range width 10
    have entry := slice_flatMap_range width k.isLt
    rw [perfmonBytes, List.append_assoc, ← List.drop_drop,
      List.drop_left' (length_beBytes 8 clock)]
    rw [← slice_take _ (n := 4 * 10) (by have := k.isLt; omega), List.take_left' table]
    exact entry
  simp only [perfmonCounters, first, word, ofBeBytes_beBytes]
  congr 1
  · exact UInt64.ofNat_mod_size
  · funext k
    exact UInt32.ofNat_mod_size

/-! ## The rounds -/

/-- The clock cycles of a round: up to the start of the counters, while they run, and until they
are read. -/
structure MonitoredRound where
  before : List SlotEvents
  running : List SlotEvents
  after : List SlotEvents

/-- What a round is to deliver. -/
def measured (streamId0 streamId1 : Nat) (round : MonitoredRound) : PerfmonCounters where
  results64 := UInt64.ofNat round.running.length
  results32 k :=
    let metric := metricOf streamId0 streamId1 k
    UInt32.ofNat (round.running.map fun event => event metric.1 metric.2).sum

section Rounds

variable {σ : Type} (monitor : Perfmon σ)

/-- The jobs `ResetPerfmon` and `RunOperators` of a round with profiling. -/
def monitoredRound (s : σ) (round : MonitoredRound) : σ :=
  let s := monitor.cycles (perfmonReset monitor s) round.before
  let s := monitor.cycles (perfmonEnable monitor s) round.running
  monitor.cycles (perfmonDisable monitor s) round.after

/-- The job `ReadPerfmonCounters`, with what `postRun` takes out of the memory. -/
def readPerfmonCounters (s : σ) : PerfmonCounters :=
  perfmonCounters (leBytes sizeofMembus (actionPerfmonRead monitor s))

/-- The counters that the rounds of a run deliver. -/
def profilingRounds : σ → List MonitoredRound → List PerfmonCounters
  | _, [] => []
  | s, round :: rounds =>
    let s := monitoredRound monitor s round
    readPerfmonCounters monitor s :: profilingRounds s rounds

end Rounds

/-- `job_struct` of the job `ConfigurePerfmon`. -/
def configurePerfmonJob (streamIds : UInt8 × UInt8) : List Byte :=
  beBytes 8 streamIds.1.toNat ++ beBytes 8 streamIds.2.toNat

section Run

variable {σ : Type} {monitor : Perfmon σ} {view : σ → PerfmonState}

/-- The counters are for the metrics of the two streams. -/
def PerfmonState.CountsFor (state : PerfmonState) (streamId0 streamId1 : Nat) : Prop :=
  ∀ k < 10, state.selected k = metricOf streamId0 streamId1 k

theorem view_configurePerfmon (documented : monitor.Documented view) (s : σ)
    {streamIds : UInt8 × UInt8} (slot0 : streamIds.1.toNat < 8) (slot1 : streamIds.2.toNat < 8)
    {memIn : Nat → Nat} {jobAddress : Nat} {rest : List Byte} (line : 48 ≤ rest.length)
    (held : HoldsAt memIn jobAddress (configurePerfmonJob streamIds ++ rest)) :
    (view (configurePerfmon monitor s memIn jobAddress)).CountsFor
      streamIds.1.toNat streamIds.2.toNat := by
  have job : (configurePerfmonJob streamIds).length = 16 := by
    rw [configurePerfmonJob, List.length_append, length_beBytes, length_beBytes]
  have enough : 64 ≤ (configurePerfmonJob streamIds ++ rest).length := by
    rw [List.length_append, job]
    omega
  have first : memIn (mfbAddress jobAddress) =
      ofLeBytes ((configurePerfmonJob streamIds ++ rest).take 64) := held 0 enough
  have whole : ((configurePerfmonJob streamIds ++ rest).take 64).length = 64 :=
    List.length_take_of_le enough
  have number : ∀ id : UInt8, id.toNat % 256 ^ 8 % 2 ^ 8 = id.toNat := by
    intro id
    have := id.toNat_lt
    omega
  have id0 : mtlGet64be 0 (memIn (mfbAddress jobAddress)) % 2 ^ 8 = streamIds.1.toNat := by
    rw [first, mtlGet64be_ofLeBytes (by omega), slice_take _ (by omega), configurePerfmonJob,
      List.append_assoc, List.drop_zero, List.take_left' (length_beBytes 8 _), ofBeBytes_beBytes,
      number]
  have id1 : mtlGet64be 8 (memIn (mfbAddress jobAddress)) % 2 ^ 8 = streamIds.2.toNat := by
    rw [first, mtlGet64be_ofLeBytes (by omega), slice_take _ (by omega), configurePerfmonJob,
      slice_append (length_beBytes 8 _) (length_beBytes 8 _), ofBeBytes_beBytes, number]
  intro k below
  rw [configurePerfmon, id0, id1, view_configure documented]
  exact selected_configured (view s) slot0 slot1 below

/-- The state of the monitor when the counters of a round are read. -/
theorem view_monitoredRound (documented : monitor.Documented view) (s : σ)
    (round : MonitoredRound) :
    view (monitoredRound monitor s round) = { view s with
      control := 0
      globalClock := round.running.length
      counters := fun k =>
        (round.running.map fun event =>
          event ((view s).selected k).1 ((view s).selected k).2).sum } := by
  have resetBits : Nat.testBit 0x00020002 0 = false ∧ Nat.testBit 0x00020002 16 = false := by
    decide
  have enableBits : Nat.testBit 0x00010001 0 = true ∧ Nat.testBit 0x00010001 16 = true := by
    decide
  have disableBits : Nat.testBit 0 0 = false ∧ Nat.testBit 0 16 = false := by decide
  have reset : view (monitor.cycles (perfmonReset monitor s) round.before) =
      { view s with control := 0x00020002, globalClock := 0, counters := fun _ => 0 } := by
    rw [view_cycles documented, perfmonReset, documented.control]
    exact cycles_stopped ((view s).writeControl 0x00020002) resetBits.1 resetBits.2 round.before
  have running : view (monitor.cycles (perfmonEnable monitor
      (monitor.cycles (perfmonReset monitor s) round.before)) round.running) = { view s with
        control := 0x00010001
        globalClock := round.running.length
        counters := fun k => (round.running.map fun event =>
          event ((view s).selected k).1 ((view s).selected k).2).sum } := by
    rw [view_cycles documented, perfmonEnable, documented.control, reset]
    have counted := cycles_counting
      { view s with control := 0x00010001, globalClock := 0, counters := fun _ => 0 }
      enableBits.1 enableBits.2 round.running
    simp only [Nat.zero_add] at counted
    exact counted
  have stopped : ∀ state : PerfmonState,
      round.after.foldl PerfmonState.cycle (state.writeControl 0) = { state with control := 0 } :=
    fun state => cycles_stopped (state.writeControl 0) disableBits.1 disableBits.2 round.after
  rw [monitoredRound, view_cycles documented, perfmonDisable, documented.control, running, stopped]

/-- The job delivers the clock and the counters, in the words of the host. -/
theorem readPerfmonCounters_eq (documented : monitor.Documented view) (s : σ) :
    readPerfmonCounters monitor s =
      { results64 := UInt64.ofNat (view s).globalClock
        results32 := fun k => UInt32.ofNat ((view s).counters k) } := by
  have bytes := leBytes_ofLeBytes (perfmonBytes (monitor.read s 0 * 2 ^ 32 + monitor.read s 1)
    (fun k => monitor.read s ((0x100 + k * 4 * 4) / 4)) 10)
  rw [length_perfmonBytes _ _ le_rfl] at bytes
  have clock : monitor.read s 0 * 2 ^ 32 + monitor.read s 1 = (view s).globalClock % 2 ^ 64 := by
    rw [documented.clockHigh, documented.clockLow]
    omega
  have counter : ∀ k : Fin 10, UInt32.ofNat (monitor.read s ((0x100 + k.val * 4 * 4) / 4)) =
      UInt32.ofNat ((view s).counters k) := by
    intro k
    rw [documented.counter s k k.isLt]
    exact UInt32.ofNat_mod_size
  rw [readPerfmonCounters, actionPerfmonRead_eq, sizeofMembus, bytes, perfmonCounters_perfmonBytes,
    clock]
  simp only [counter]
  congr 1
  exact UInt64.ofNat_mod_size

theorem profilingRounds_measured (documented : monitor.Documented view) (s : σ)
    {streamId0 streamId1 : Nat} (counts : (view s).CountsFor streamId0 streamId1)
    (rounds : List MonitoredRound) :
    profilingRounds monitor s rounds = rounds.map (measured streamId0 streamId1) := by
  induction rounds generalizing s with
  | nil => rfl
  | cons round rounds ih =>
    have state := view_monitoredRound documented s round
    have kept : (view (monitoredRound monitor s round)).CountsFor streamId0 streamId1 := by
      rw [state]
      exact counts
    have delivered : readPerfmonCounters monitor (monitoredRound monitor s round) =
        measured streamId0 streamId1 round := by
      rw [readPerfmonCounters_eq documented, state, measured]
      congr 1
      funext k
      dsimp only
      rw [counts k k.isLt]
    rw [profilingRounds, List.map_cons, delivered, ih _ kept]

/-- Profiling delivers what it is meant to: after the streams of an operator were configured,
each round of the run has the number of its cycles and, for both streams, the sums of the five
metrics over the cycles of its job, and nothing of the rounds before. -/
theorem profiling_run (documented : monitor.Documented view) (s : σ)
    {streamIds : UInt8 × UInt8} (slot0 : streamIds.1.toNat < 8) (slot1 : streamIds.2.toNat < 8)
    {memIn : Nat → Nat} {jobAddress : Nat} {rest : List Byte} (line : 48 ≤ rest.length)
    (held : HoldsAt memIn jobAddress (configurePerfmonJob streamIds ++ rest))
    (rounds : List MonitoredRound) :
    profilingRounds monitor (configurePerfmon monitor s memIn jobAddress) rounds =
      rounds.map (measured streamIds.1.toNat streamIds.2.toNat) := by
  have counts := view_configurePerfmon documented s slot0 slot1 line held
  exact profilingRounds_measured documented _ counts rounds

end Run

/-! ## A monitor -/

/-- A monitor that does what is documented, as its registers. -/
def plainPerfmon : Perfmon PerfmonState where
  write state address value :=
    if address = 0x300 / 4 then state.writeControl value
    else if 0x44 / 4 ≤ address ∧ address < 0x44 / 4 + 3 then
      { state with selection := Function.update state.selection (address - 0x44 / 4) value }
    else state
  read state address :=
    if address = 0 then state.globalClock / 2 ^ 32 % 2 ^ 32
    else if address = 1 then state.globalClock % 2 ^ 32
    else state.counters ((address - 0x100 / 4) / 4) % 2 ^ 32
  cycle := PerfmonState.cycle

theorem plainPerfmon_documented : plainPerfmon.Documented id where
  control s value := by simp only [plainPerfmon, id, if_true]
  selection s j value below := by
    have register : ¬ 0x44 / 4 + j = 0x300 / 4 := by omega
    have inside : 0x44 / 4 ≤ 0x44 / 4 + j ∧ 0x44 / 4 + j < 0x44 / 4 + 3 := by omega
    simp only [plainPerfmon, if_neg register, if_pos inside, Nat.add_sub_cancel_left, id]
  cycle _ _ := rfl
  clockHigh _ := rfl
  clockLow _ := rfl
  counter s k below := by
    have address : (0x100 + k * 4 * 4) / 4 = 0x100 / 4 + k * 4 := by omega
    have high : ¬ 0x100 / 4 + k * 4 = 0 := by omega
    have low : ¬ 0x100 / 4 + k * 4 = 1 := by omega
    have index : (0x100 / 4 + k * 4 - 0x100 / 4) / 4 = k := by omega
    simp only [plainPerfmon, address, if_neg high, if_neg low, index, id]

/-- The registers after power-up. -/
def idlePerfmon : PerfmonState where
  control := 0
  selection _ := 0
  globalClock := 0
  counters _ := 0

/-- Two rounds in which the streams are busy, also while the counters do not run. -/
def busyRounds : List MonitoredRound :=
  let busy : SlotEvents := fun slot metric => slot + metric
  [⟨[busy], [busy, busy, busy], [busy]⟩, ⟨[busy], [busy], [busy]⟩]

theorem profiling_run_busy :
    profilingRounds plainPerfmon (configurePerfmon plainPerfmon idlePerfmon
        (busLine (configurePerfmonJob (1, 0) ++ List.replicate 48 (byte 0))) 0) busyRounds =
      busyRounds.map (measured 1 0) :=
  @profiling_run _ _ _ plainPerfmon_documented idlePerfmon (1, 0) (by decide) (by decide) _ _
    (List.replicate 48 (byte 0)) List.length_replicate.ge (holdsAt_zero _) busyRounds

end MetalFs.Fpga
