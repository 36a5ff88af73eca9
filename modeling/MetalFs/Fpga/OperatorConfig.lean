import MetalFs.Fpga.Membus

/-!
# Options of an operator

`OperatorContext::configure` puts the value of an option behind a header of 16 bytes, and
`configure_operators` of `mtl_jobs.cpp` copies it word by word to the registers of the
operator, fetching the lines of the job as it goes.

The position in the job that decides when the next line is fetched starts at four, the
number of words in the header, and advances by four bytes for each word: it is three words
behind.
-/

namespace MetalFs.Fpga

/-! ## The host -/

/-- The value of an option. -/
inductive OptionValue where
  | uint (value : Nat)
  | bool (value : Bool)
  | buffer (bytes : List Byte)
deriving DecidableEq, Repr

/-- The bytes that are copied behind the header. -/
def OptionValue.payload : OptionValue → List Byte
  | uint value => leBytes 4 value
  | bool value => leBytes 4 (if value then 1 else 0)
  | buffer bytes => bytes

/-- The length in the header. -/
def OptionValue.length : OptionValue → Nat
  | uint _ => 4 / 4
  | bool _ => 1
  | buffer bytes => bytes.length / 4

/-- The job of `OperatorContext::configure` for one option, in memory that is not
initialised. -/
def configureJob (memory : List Byte) (definitionOffset streamID : Nat) (prepareRequired : Bool)
    (value : OptionValue) : List Byte :=
  let header := beBytes 4 (definitionOffset / 4) ++ beBytes 4 value.length ++
    beBytes 4 streamID ++ beBytes 4 prepareRequired.toNat
  header ++ value.payload ++ memory.drop (4 * 4 + value.payload.length)

/-! ## The FPGA -/

/-- `OperatorOffset`. -/
def operatorOffset : Nat := 0x10000 / 4

/-- The register of an operator that enables its preparation mode. -/
def prepareRegister : Nat := 0x10 / 4

/-- The line of a round of the loop in `configure_operators`. -/
def fetchLine (memIn : Nat → Nat) (jobAddress line membusLineOffset : Nat) : Nat :=
  if membusLineOffset % sizeofMembus = 0 then
    memIn (mfbAddress jobAddress + membusLineOffset / sizeofMembus)
  else line

/-- The loop of `configure_operators`; `membus_line_offset` has 8 bits, `offset` 32. -/
def configureLoop (memIn : Nat → Nat) (jobAddress op : Nat) :
    Nat → Nat → Nat → Nat → (Nat → Nat) → Nat → Nat
  | 0, _, _, _, operatorCtrl => operatorCtrl
  | length + 1, offset, membusLineOffset, line, operatorCtrl =>
    let line := fetchLine memIn jobAddress line membusLineOffset
    let operatorCtrl := Function.update operatorCtrl (op * operatorOffset + offset) (bits line 31 0)
    configureLoop memIn jobAddress op length ((offset + 1) % 2 ^ 32) ((membusLineOffset + 4) % 2 ^ 8)
      (line / 2 ^ 32) operatorCtrl

/-- `configure_operators`. -/
def configureOperators (memIn : Nat → Nat) (jobAddress : Nat) (operatorCtrl : Nat → Nat) :
    Nat → Nat :=
  let line := memIn (mfbAddress jobAddress)
  let offset := mtlGet32be 0 line
  let length := mtlGet32be 4 line
  let op := (mtlGet32be 8 line + 2 ^ 32 - 1) % 2 ^ 32
  let prepare := mtlGet32be 12 line
  let operatorCtrl :=
    configureLoop memIn jobAddress op length offset 4 (line / 2 ^ (4 * 4 * 8)) operatorCtrl
  Function.update operatorCtrl (op * operatorOffset + prepareRegister) prepare

/-! ## The loop -/

/-- The line in round `i` of the loop. -/
def lineAt (memIn : Nat → Nat) (jobAddress : Nat) : Nat → Nat → Nat → Nat
  | membusLineOffset, line, 0 => fetchLine memIn jobAddress line membusLineOffset
  | membusLineOffset, line, i + 1 => lineAt memIn jobAddress ((membusLineOffset + 4) % 2 ^ 8)
      (fetchLine memIn jobAddress line membusLineOffset / 2 ^ 32) i

section Loop

variable {memIn : Nat → Nat} {jobAddress op length offset membusLineOffset line : Nat}
  {operatorCtrl : Nat → Nat}

/-- The registers that the loop leaves alone. -/
theorem configureLoop_frame {r : Nat}
    (apart : ∀ i < length, r ≠ op * operatorOffset + (offset + i) % 2 ^ 32)
    (small : offset < 2 ^ 32) :
    configureLoop memIn jobAddress op length offset membusLineOffset line operatorCtrl r =
      operatorCtrl r := by
  induction length generalizing offset membusLineOffset line operatorCtrl with
  | zero => rfl
  | succ length ih =>
    have first := apart 0 (Nat.zero_lt_succ length)
    rw [Nat.add_zero, Nat.mod_eq_of_lt small] at first
    rw [configureLoop, ih, Function.update_of_ne first]
    · intro i below
      have later := apart (i + 1) (Nat.succ_lt_succ below)
      rw [Nat.mod_add_mod, Nat.add_assoc, Nat.add_comm 1 i]
      exact later
    · exact Nat.mod_lt _ (by decide)

/-- Round `i` writes the low word of its line. -/
theorem configureLoop_word {i : Nat} (below : i < length) (short : length ≤ 2 ^ 32)
    (small : offset < 2 ^ 32) :
    configureLoop memIn jobAddress op length offset membusLineOffset line operatorCtrl
      (op * operatorOffset + (offset + i) % 2 ^ 32) =
        bits (lineAt memIn jobAddress membusLineOffset line i) 31 0 := by
  induction length generalizing offset membusLineOffset line operatorCtrl i with
  | zero => exact absurd below (Nat.not_lt_zero i)
  | succ length ih =>
    have next : (offset + 1) % 2 ^ 32 < 2 ^ 32 := Nat.mod_lt _ (by decide)
    rw [configureLoop]
    cases i with
    | zero =>
      have place : (offset + 0) % 2 ^ 32 = offset := Nat.mod_eq_of_lt small
      rw [place, configureLoop_frame ?_ next, Function.update_self, lineAt]
      intro i below
      omega
    | succ i =>
      have place : (offset + (i + 1)) % 2 ^ 32 = ((offset + 1) % 2 ^ 32 + i) % 2 ^ 32 := by
        rw [Nat.mod_add_mod, Nat.add_assoc, Nat.add_comm 1 i]
      rw [place, lineAt]
      exact ih (Nat.lt_of_succ_lt_succ below) (by omega) next

/-- Until the position reaches the end of a line nothing is fetched. -/
theorem lineAt_of_short {i : Nat} (positive : 0 < membusLineOffset)
    (short : membusLineOffset + 4 * i < sizeofMembus) :
    lineAt memIn jobAddress membusLineOffset line i = line / 2 ^ (32 * i) := by
  have size : sizeofMembus = 64 := rfl
  induction i generalizing membusLineOffset line with
  | zero =>
    rw [lineAt, fetchLine, if_neg, Nat.mul_zero, pow_zero, Nat.div_one]
    rw [size] at short ⊢
    omega
  | succ i ih =>
    have kept : fetchLine memIn jobAddress line membusLineOffset = line := by
      rw [fetchLine, if_neg]
      rw [size] at short ⊢
      omega
    have advance : (membusLineOffset + 4) % 2 ^ 8 = membusLineOffset + 4 := by
      rw [size] at short
      omega
    rw [lineAt, kept, advance, ih (by omega) (by omega), Nat.div_div_eq_div_mul, ← pow_add,
      Nat.mul_succ, Nat.add_comm]

end Loop

/-! ## The job -/

/-- Word `i` of the value. -/
def OptionValue.word (value : OptionValue) (i : Nat) : Nat :=
  ofLeBytes ((value.payload.drop (4 * i)).take 4)

/-- The value has `n` words. -/
def OptionValue.HasWords (value : OptionValue) (n : Nat) : Prop := value.payload.length = 4 * n

theorem OptionValue.HasWords.length {value : OptionValue} {n : Nat} (words : value.HasWords n) :
    value.length = n := by
  unfold HasWords at words
  cases value with
  | uint value =>
    rw [payload, length_leBytes] at words
    rw [OptionValue.length]
    omega
  | bool value =>
    rw [payload, length_leBytes] at words
    rw [OptionValue.length]
    omega
  | buffer bytes =>
    rw [payload] at words
    rw [OptionValue.length, words]
    omega

section Job

variable {memory : List Byte} {definitionOffset streamID n : Nat} {prepareRequired : Bool}
  {value : OptionValue} {memIn : Nat → Nat} {jobAddress : Nat}

theorem length_configureJob (words : value.HasWords n) (fits : 16 + 4 * n ≤ memory.length) :
    (configureJob memory definitionOffset streamID prepareRequired value).length =
      memory.length := by
  unfold OptionValue.HasWords at words
  simp only [configureJob, List.length_append, length_beBytes, List.length_drop, words]
  omega

/-- The first line of the job. -/
theorem HoldsAt.first {job : List Byte} (holds : HoldsAt memIn jobAddress job)
    (long : sizeofMembus ≤ job.length) :
    memIn (mfbAddress jobAddress) = ofLeBytes (job.take sizeofMembus) := by
  have line := holds 0 (by rw [Nat.zero_add, Nat.mul_one]; exact long)
  rw [Nat.add_zero] at line
  rw [line, busLine, Nat.mul_zero, List.drop_zero]

/-- A word of the header. -/
theorem header_word {job first rest : List Byte} {k x : Nat} (holds : HoldsAt memIn jobAddress job)
    (long : sizeofMembus ≤ job.length) (split : job = first ++ beBytes 4 x ++ rest)
    (place : first.length = k) (inside : k + 4 ≤ sizeofMembus) :
    mtlGet32be k (memIn (mfbAddress jobAddress)) = x % 2 ^ 32 := by
  have length : (job.take sizeofMembus).length = sizeofMembus := by
    rw [List.length_take, Nat.min_eq_left long]
  rw [holds.first long, mtlGet32be_ofLeBytes (by rw [length]; exact inside), slice_take _ inside,
    split, slice_append place (length_beBytes 4 x), ofBeBytes_beBytes]
  rfl

/-- The call with the fields of the header. -/
theorem configureOperators_eq (words : value.HasWords n) (fits : 16 + 4 * n ≤ memory.length)
    (page : memory.length = 4096) (user : 1 ≤ streamID) (id : streamID < 256)
    (offset : definitionOffset / 4 < 2 ^ 32) (operatorCtrl : Nat → Nat)
    (holds : HoldsAt memIn jobAddress
      (configureJob memory definitionOffset streamID prepareRequired value)) :
    configureOperators memIn jobAddress operatorCtrl = Function.update
      (configureLoop memIn jobAddress (streamID - 1) n (definitionOffset / 4) 4
        (memIn (mfbAddress jobAddress) / 2 ^ 128) operatorCtrl)
      ((streamID - 1) * operatorOffset + prepareRegister) prepareRequired.toNat := by
  have size : sizeofMembus = 64 := rfl
  have long : sizeofMembus ≤
      (configureJob memory definitionOffset streamID prepareRequired value).length := by
    rw [length_configureJob words fits, page, size]
    omega
  have first := @header_word _ _ _ [] _ 0 (definitionOffset / 4) holds long
    (by simp only [configureJob, List.append_assoc, List.nil_append]; rfl) rfl (by decide)
  have second := @header_word _ _ _ (beBytes 4 (definitionOffset / 4)) _ 4 value.length holds long
    (by simp only [configureJob, List.append_assoc]; rfl) (length_beBytes 4 _) (by decide)
  have third := @header_word _ _ _ (beBytes 4 (definitionOffset / 4) ++ beBytes 4 value.length) _ 8
    streamID holds long (by simp only [configureJob, List.append_assoc]; rfl)
    (by rw [List.length_append, length_beBytes, length_beBytes]) (by decide)
  have fourth := @header_word _ _ _ (beBytes 4 (definitionOffset / 4) ++ beBytes 4 value.length ++
    beBytes 4 streamID) _ 12 prepareRequired.toNat holds long
    (by simp only [configureJob, List.append_assoc]; rfl)
    (by rw [List.length_append, List.length_append, length_beBytes, length_beBytes, length_beBytes])
    (by decide)
  have small : n < 2 ^ 32 := by omega
  have op : (streamID % 2 ^ 32 + 2 ^ 32 - 1) % 2 ^ 32 = streamID - 1 := by omega
  have prepare : prepareRequired.toNat % 2 ^ 32 = prepareRequired.toNat := by
    cases prepareRequired <;> rfl
  unfold configureOperators
  simp only [first, second, third, fourth, words.length, op, prepare, Nat.mod_eq_of_lt offset,
    Nat.mod_eq_of_lt small]

/-- The words of the first line arrive, and zeros behind them. -/
theorem first_line_word (holds : HoldsAt memIn jobAddress
      (configureJob memory definitionOffset streamID prepareRequired value))
    (words : value.HasWords n) (fits : 16 + 4 * n ≤ memory.length)
    (page : memory.length = 4096) {i : Nat} (below : i < n) (short : i < 15) :
    bits (lineAt memIn jobAddress 4 (memIn (mfbAddress jobAddress) / 2 ^ 128) i) 31 0 =
      if i < 12 then value.word i else 0 := by
  have size : sizeofMembus = 64 := rfl
  have long : sizeofMembus ≤
      (configureJob memory definitionOffset streamID prepareRequired value).length := by
    rw [length_configureJob words fits, page, size]
    omega
  have shift : 2 ^ 128 * 2 ^ (32 * i) = 256 ^ (16 + 4 * i) := by
    rw [← pow_add, show (256 : Nat) = 2 ^ 8 from rfl, ← pow_mul]
    congr 1
    omega
  rw [lineAt_of_short (by decide) (by rw [size]; omega), holds.first long,
    Nat.div_div_eq_div_mul, shift, ← ofLeBytes_drop]
  have low := bits_ofLeBytes (((configureJob memory definitionOffset streamID prepareRequired
    value).take sizeofMembus).drop (16 + 4 * i)) 0 3
  rw [List.drop_zero] at low
  refine low.trans ?_
  split
  · rename_i front
    unfold OptionValue.HasWords at words
    have header : (beBytes 4 (definitionOffset / 4) ++ beBytes 4 value.length ++
        beBytes 4 streamID ++ beBytes 4 prepareRequired.toNat).length = 16 := by
      simp only [List.length_append, length_beBytes]
    rw [slice_take _ (by rw [size]; omega), OptionValue.word]
    congr 1
    rw [configureJob, List.append_assoc, ← List.drop_drop, List.drop_left' header, List.drop_append,
      List.take_append_of_le_length]
    rw [List.length_drop]
    omega
  · rename_i behind
    rw [List.drop_of_length_le, List.take_nil, ofLeBytes]
    rw [List.length_take, size]
    omega

end Job

/-! ## Which options arrive -/

/-- Every value of `n` words arrives in the registers from the offset of the option on, and no
other register is written except the one for the preparation mode. -/
def Delivered (definitionOffset n : Nat) : Prop :=
  ∀ (value : OptionValue) (streamID : Nat) (prepareRequired : Bool) (memory : List Byte)
    (memIn : Nat → Nat) (jobAddress : Nat) (operatorCtrl : Nat → Nat),
    value.HasWords n → 1 ≤ streamID → streamID < 256 → memory.length = 4096 →
    HoldsAt memIn jobAddress
      (configureJob memory definitionOffset streamID prepareRequired value) →
    (∀ i < n, configureOperators memIn jobAddress operatorCtrl
      ((streamID - 1) * operatorOffset + definitionOffset / 4 + i) = value.word i) ∧
    ∀ r, (∀ i < n, r ≠ (streamID - 1) * operatorOffset + definitionOffset / 4 + i) →
      r ≠ (streamID - 1) * operatorOffset + prepareRegister →
      configureOperators memIn jobAddress operatorCtrl r = operatorCtrl r

section Delivery

variable {definitionOffset n : Nat}

theorem delivered_of_short (fits : n ≤ (4096 - 16) / 4)
    (apart : ¬ (definitionOffset / 4 ≤ prepareRegister ∧
      prepareRegister < definitionOffset / 4 + n)) (small : definitionOffset / 4 < 2 ^ 32)
    (short : n ≤ 12) (range : definitionOffset / 4 + n ≤ 2 ^ 32) :
    Delivered definitionOffset n := by
  intro value streamID prepareRequired memory memIn jobAddress operatorCtrl words user id page holds
  have room : 16 + 4 * n ≤ memory.length := by omega
  have address : ∀ i < n, (streamID - 1) * operatorOffset + definitionOffset / 4 + i =
      (streamID - 1) * operatorOffset + (definitionOffset / 4 + i) % 2 ^ 32 := by
    intro i below
    rw [Nat.mod_eq_of_lt (by omega), Nat.add_assoc]
  rw [configureOperators_eq words room page user id small operatorCtrl holds]
  constructor
  · intro i below
    rw [Function.update_of_ne (by omega), address i below,
      configureLoop_word below (by omega) small,
      first_line_word holds words room page below (by omega), if_pos (by omega)]
  · intro r outside other
    rw [Function.update_of_ne other, configureLoop_frame ?_ small]
    intro i below
    rw [← address i below]
    exact outside i below

/-- A buffer of `n` words with all bytes equal to `b`. -/
def solidValue (n : Nat) (b : Byte) : OptionValue := .buffer (List.replicate (4 * n) b)

theorem solidValue_hasWords (n : Nat) (b : Byte) : (solidValue n b).HasWords n :=
  List.length_replicate

theorem solidValue_word {i : Nat} (below : i < n) (b : Byte) :
    (solidValue n b).word i = ofLeBytes (List.replicate 4 b) := by
  rw [OptionValue.word, solidValue, OptionValue.payload, List.drop_replicate, List.take_replicate,
    Nat.min_eq_left (by omega)]

/-- The job with a buffer of set bytes for the first operator. -/
def solidJob (definitionOffset n : Nat) : List Byte :=
  configureJob (List.replicate 4096 (byte 0)) definitionOffset 1 false (solidValue n (byte 255))

/-- The registers, zero before, after the job with a buffer of set bytes. -/
theorem configureOperators_solidJob (fits : n ≤ (4096 - 16) / 4)
    (small : definitionOffset / 4 < 2 ^ 32) {r : Nat} (other : r ≠ prepareRegister) :
    configureOperators (busLine (solidJob definitionOffset n)) 0 (fun _ => 0) r =
      configureLoop (busLine (solidJob definitionOffset n)) 0 0 n (definitionOffset / 4) 4
        (busLine (solidJob definitionOffset n) (mfbAddress 0) / 2 ^ 128) (fun _ => 0) r := by
  have page : (List.replicate 4096 (byte 0)).length = 4096 := List.length_replicate
  have room : 16 + 4 * n ≤ (List.replicate 4096 (byte 0)).length := by
    rw [page]
    omega
  rw [configureOperators_eq (solidValue_hasWords n (byte 255)) room page (Nat.le_refl 1) (by decide)
    small _ (holdsAt_zero (solidJob definitionOffset n)), Nat.sub_self, Nat.zero_mul, Nat.zero_add,
    Function.update_of_ne other]

theorem Delivered.solidJob (delivered : Delivered definitionOffset n) {i : Nat} (below : i < n) :
    configureOperators (busLine (solidJob definitionOffset n)) 0 (fun _ => 0)
      (definitionOffset / 4 + i) = ofLeBytes (List.replicate 4 (byte 255)) := by
  have arrives := (delivered (solidValue n (byte 255)) 1 false (List.replicate 4096 (byte 0)) _ 0
    (fun _ => 0) (solidValue_hasWords n (byte 255)) (Nat.le_refl 1) (by decide)
    List.length_replicate (holdsAt_zero _)).1 i below
  rw [Nat.sub_self, Nat.zero_mul, Nat.zero_add, solidValue_word below] at arrives
  exact arrives

/-- The registers have 32-bit offsets. -/
theorem range_of_delivered (fits : n ≤ (4096 - 16) / 4) (small : definitionOffset / 4 < 2 ^ 32)
    (delivered : Delivered definitionOffset n) : definitionOffset / 4 + n ≤ 2 ^ 32 := by
  by_contra beyond
  -- the word for register 2 ^ 32 wraps around to register 0
  have arrives := delivered.solidJob (show 2 ^ 32 - definitionOffset / 4 < n by omega)
  rw [configureOperators_solidJob fits small (by unfold prepareRegister; omega),
    configureLoop_frame ?_ small] at arrives
  · revert arrives
    decide
  · intro i _
    have := Nat.mod_lt (definitionOffset / 4 + i) (show 0 < 2 ^ 32 by decide)
    omega

/-- The thirteenth word is read as zero. -/
theorem thirteenth_word (fits : n ≤ (4096 - 16) / 4) (long : 12 < n)
    (apart : ¬ (definitionOffset / 4 ≤ prepareRegister ∧
      prepareRegister < definitionOffset / 4 + n)) (range : definitionOffset / 4 + n ≤ 2 ^ 32) :
    configureOperators (busLine (solidJob definitionOffset n)) 0 (fun _ => 0)
      (definitionOffset / 4 + 12) = 0 := by
  have small : definitionOffset / 4 < 2 ^ 32 := by omega
  have page : (List.replicate 4096 (byte 0)).length = 4096 := List.length_replicate
  have room : 16 + 4 * n ≤ (List.replicate 4096 (byte 0)).length := by
    rw [page]
    omega
  have address : definitionOffset / 4 + 12 =
      0 * operatorOffset + (definitionOffset / 4 + 12) % 2 ^ 32 := by
    rw [Nat.mod_eq_of_lt (by omega), Nat.zero_mul, Nat.zero_add]
  have read := first_line_word (holdsAt_zero (solidJob definitionOffset n))
    (solidValue_hasWords n (byte 255)) room page long (by decide)
  rw [if_neg (Nat.lt_irrefl 12)] at read
  rw [configureOperators_solidJob fits small (by omega), address,
    configureLoop_word long (by omega) small, read]

theorem short_of_delivered (fits : n ≤ (4096 - 16) / 4)
    (apart : ¬ (definitionOffset / 4 ≤ prepareRegister ∧
      prepareRegister < definitionOffset / 4 + n)) (range : definitionOffset / 4 + n ≤ 2 ^ 32)
    (delivered : Delivered definitionOffset n) : n ≤ 12 := by
  by_contra long
  have below : 12 < n := by omega
  have arrives := delivered.solidJob below
  rw [thirteenth_word fits below apart range] at arrives
  revert arrives
  decide

/-- Options of up to twelve words arrive, those that fit into the first line. -/
theorem delivered_iff_first_line (fits : n ≤ (4096 - 16) / 4)
    (apart : ¬ (definitionOffset / 4 ≤ prepareRegister ∧
      prepareRegister < definitionOffset / 4 + n)) (small : definitionOffset / 4 < 2 ^ 32) :
    Delivered definitionOffset n ↔ n ≤ 12 ∧ definitionOffset / 4 + n ≤ 2 ^ 32 := by
  constructor
  · intro delivered
    have range := range_of_delivered fits small delivered
    exact ⟨short_of_delivered fits apart range delivered, range⟩
  · rintro ⟨short, range⟩
    exact delivered_of_short fits apart small short range

end Delivery

/-- A key of four words at byte offset 0x100. -/
theorem delivered_iff_first_line_key : Delivered 0x100 4 := by
  apply (delivered_iff_first_line _ _ _).mpr
  · exact ⟨by decide, by decide⟩
  · decide
  · decide
  · decide

/-- The last word of a buffer of thirteen words arrives as zero. -/
theorem thirteen_words_not_delivered :
    (solidValue 13 (byte 255)).word 12 = 0xffffffff ∧
      configureOperators (busLine (solidJob 0x100 13)) 0 (fun _ => 0) (0x100 / 4 + 12) = 0 ∧
      ¬ Delivered 0x100 13 := by
  have fits : 13 ≤ (4096 - 16) / 4 := by decide
  have apart : ¬ (0x100 / 4 ≤ prepareRegister ∧ prepareRegister < 0x100 / 4 + 13) := by decide
  have range : 0x100 / 4 + 13 ≤ 2 ^ 32 := by decide
  refine ⟨solidValue_word (by decide) (byte 255), ?_, ?_⟩
  · exact thirteenth_word fits (by decide) apart range
  · intro delivered
    have short := short_of_delivered fits apart range delivered
    omega

end MetalFs.Fpga
