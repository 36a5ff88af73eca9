import MetalFs.Lib.OrderedStore

/-!
# Messages on a stream socket

`Socket::sendMessage` writes a header with the type and the length of a message and
then its bytes; `Socket::receiveMessage` reads them back with one `recv` each.  A
stream socket keeps the order of the bytes and nothing else: a `recv` returns as much
as happens to be there, at least one byte and at most what was asked for.

The code that protobuf generates is a parameter (`Protobuf`).
-/

namespace MetalFs.Driver

/-- `MessageType`. -/
inductive MessageType where
  | registrationRequest
  | registrationResponse
  | processingRequest
  | processingResponse
deriving DecidableEq, Repr

/-- The value of the enumerator. -/
def MessageType.value : MessageType → Nat
  | registrationRequest => 0
  | registrationResponse => 1
  | processingRequest => 2
  | processingResponse => 3

/-- The message classes.  Serialising and parsing gives the message back, and a message
has less than 2 GiB (`ByteSize` is an `int`). -/
structure Protobuf where
  Message : MessageType → Type
  serialize : ∀ {type}, Message type → List Byte
  parse : ∀ {type}, List Byte → Message type
  roundTrip : ∀ {type} (message : Message type), parse (serialize message) = message
  small : ∀ {type} (message : Message type), (serialize message).length < 2 ^ 31

/-! ## The socket -/

/-- The receiving end of a socket: the bytes that are or will be under way, how many
bytes the `i`-th call of `recv` finds besides the first one, and the number of calls. -/
structure Wire where
  bytes : List Byte
  delivery : Nat → Nat
  calls : Nat

/-- `recv` of at most `size` bytes; `none` if it waits for ever. -/
def recv (size : Nat) (wire : Wire) : Option (List Byte × Wire) :=
  if size = 0 then some ([], { wire with calls := wire.calls + 1 })
  else if wire.bytes = [] then none
  else
    let count := min size (wire.delivery wire.calls + 1)
    some (wire.bytes.take count,
      { wire with bytes := wire.bytes.drop count, calls := wire.calls + 1 })

/-- `htonl`, as bytes. -/
def htonl (n : Nat) : List Byte := (leBytes 4 n).reverse

/-- `ntohl`, from bytes. -/
def ntohl (bytes : List Byte) : Nat := ofLeBytes bytes.reverse

/-- The exceptions of `receiveMessage`. -/
inductive SocketError where
  | couldNotReadMessageHeader
  | unexpectedMessage
deriving DecidableEq, Repr

/-- `sizeof(MessageHeader)`. -/
def sizeofMessageHeader : Nat := 8

/-- `MessageHeader::sendHeader`. -/
def sendHeader (type length : Nat) : List Byte := htonl type ++ htonl length

/-- The conversion of the `int32_t` length to a `uint64_t`. -/
def headerLength (length : Nat) : Nat :=
  if length < 2 ^ 31 then length else length + 2 ^ 64 - 2 ^ 32

/-- `MessageHeader::receive`: the type and the length. -/
def receiveHeader (wire : Wire) : Option (Except SocketError (Nat × Nat) × Wire) := do
  let (incomingMessage, wire) ← recv sizeofMessageHeader wire
  if incomingMessage.length ≠ sizeofMessageHeader then
    some (.error .couldNotReadMessageHeader, wire)
  else
    some (.ok (ntohl (incomingMessage.take 4), headerLength (ntohl (incomingMessage.drop 4))), wire)

variable (protobuf : Protobuf)

/-- `Socket::sendMessage`. -/
def sendMessage {type : MessageType} (message : protobuf.Message type) : List Byte :=
  sendHeader type.value (protobuf.serialize message).length ++ protobuf.serialize message

/-- `Socket::receiveMessage`.  The buffer is zero where `recv` does not write. -/
def receiveMessage (type : MessageType) (wire : Wire) :
    Option (Except SocketError (protobuf.Message type) × Wire) := do
  let (header, wire) ← receiveHeader wire
  match header with
  | .error error => some (.error error, wire)
  | .ok (incomingType, length) =>
    if incomingType ≠ type.value then some (.error .unexpectedMessage, wire)
    else
      let (received, wire) ← recv length wire
      let buffer := received ++ List.replicate (length - received.length) (byte 0)
      some (.ok (protobuf.parse buffer), wire)

/-! ## Sequences of messages -/

/-- A message with its type. -/
abbrev Protobuf.Typed : Type := Sigma protobuf.Message

/-- All bytes of a sequence of messages. -/
def sendMessages (messages : List protobuf.Typed) : List Byte :=
  messages.flatMap fun message => sendMessage protobuf message.2

/-- The calls of `receiveMessage` for a sequence of types, until one throws. -/
def receiveMessages : List MessageType → Wire → Option (Except SocketError (List protobuf.Typed))
  | [], _ => some (.ok [])
  | type :: types, wire => do
    let (message, wire) ← receiveMessage protobuf type wire
    match message with
    | .error error => some (.error error)
    | .ok message =>
      let messages ← receiveMessages types wire
      some (messages.map fun messages => ⟨type, message⟩ :: messages)

/-- The receiver gets the messages that were sent. -/
def Received (messages : List protobuf.Typed) (delivery : Nat → Nat) (calls : Nat) : Prop :=
  receiveMessages protobuf (messages.map Sigma.fst)
    ⟨sendMessages protobuf messages, delivery, calls⟩ = some (.ok messages)

/-! ## One `recv` -/

section

variable {protobuf} {first rest : List Byte} {delivery : Nat → Nat} {calls : Nat}

theorem recv_full (full : first.length ≤ delivery calls + 1) :
    recv first.length ⟨first ++ rest, delivery, calls⟩ = some (first, ⟨rest, delivery, calls + 1⟩) := by
  unfold recv
  split
  · rename_i empty
    rw [List.eq_nil_of_length_eq_zero empty]
    rfl
  · rename_i positive
    have nonempty : first ++ rest ≠ [] := by
      intro empty
      rw [(List.append_eq_nil_iff.mp empty).1] at positive
      exact positive rfl
    rw [if_neg nonempty]
    simp only [Nat.min_eq_left full, List.take_left, List.drop_left]

/-- A call that does not find everything returns less than it was asked for. -/
theorem recv_short (short : delivery calls + 1 < first.length) :
    recv first.length ⟨first ++ rest, delivery, calls⟩ =
      some (first.take (delivery calls + 1),
        ⟨(first ++ rest).drop (delivery calls + 1), delivery, calls + 1⟩) := by
  have nonempty : first ++ rest ≠ [] := by
    intro empty
    rw [(List.append_eq_nil_iff.mp empty).1] at short
    exact absurd short (Nat.not_lt_zero _)
  unfold recv
  rw [if_neg (by omega), if_neg nonempty]
  simp only [Nat.min_eq_right short.le, List.take_append_of_le_length short.le]

/-! ## One message -/

theorem ntohl_htonl {n : Nat} (small : n < 2 ^ 32) : ntohl (htonl n) = n := by
  unfold ntohl htonl
  rw [List.reverse_reverse, ofLeBytes_leBytes]
  exact Nat.mod_eq_of_lt small

theorem length_htonl (n : Nat) : (htonl n).length = 4 := by
  rw [htonl, List.length_reverse, length_leBytes]

theorem length_sendHeader (type length : Nat) :
    (sendHeader type length).length = sizeofMessageHeader := by
  rw [sendHeader, List.length_append, length_htonl, length_htonl]
  rfl

theorem MessageType.value_lt (type : MessageType) : type.value < 2 ^ 32 := by
  cases type <;> decide

theorem receiveHeader_full {type length : Nat} (typeSmall : type < 2 ^ 32)
    (lengthSmall : length < 2 ^ 31) (full : sizeofMessageHeader ≤ delivery calls + 1) :
    receiveHeader ⟨sendHeader type length ++ rest, delivery, calls⟩ =
      some (.ok (type, length), ⟨rest, delivery, calls + 1⟩) := by
  have read := @recv_full (sendHeader type length) rest delivery calls
    (by rw [length_sendHeader]; exact full)
  rw [length_sendHeader] at read
  have typeBytes : (sendHeader type length).take 4 = htonl type :=
    List.take_left' (length_htonl type)
  have lengthBytes : (sendHeader type length).drop 4 = htonl length :=
    List.drop_left' (length_htonl type)
  have lengthEq : headerLength length = length := if_pos lengthSmall
  simp only [receiveHeader, read, Option.bind_eq_bind, Option.bind_some, length_sendHeader,
    ne_eq, not_true_eq_false, if_false, typeBytes, lengthBytes, ntohl_htonl typeSmall,
    ntohl_htonl (show length < 2 ^ 32 by omega), lengthEq]

theorem receiveHeader_short {type length : Nat} (short : delivery calls + 1 < sizeofMessageHeader) :
    ∃ wire, receiveHeader ⟨sendHeader type length ++ rest, delivery, calls⟩ =
      some (.error .couldNotReadMessageHeader, wire) := by
  have read := @recv_short (sendHeader type length) rest delivery calls
    (by rw [length_sendHeader]; exact short)
  rw [length_sendHeader] at read
  have less : ((sendHeader type length).take (delivery calls + 1)).length ≠
      sizeofMessageHeader := by
    rw [List.length_take, length_sendHeader]
    omega
  refine ⟨⟨(sendHeader type length ++ rest).drop (delivery calls + 1), delivery, calls + 1⟩, ?_⟩
  simp only [receiveHeader, read, Option.bind_eq_bind, Option.bind_some, if_pos less]

/-- The message behind a header that was read in one piece. -/
theorem receiveMessage_of_header {type : MessageType} (message : protobuf.Message type)
    (full : sizeofMessageHeader ≤ delivery calls + 1) :
    receiveMessage protobuf type ⟨sendMessage protobuf message ++ rest, delivery, calls⟩ =
      (recv (protobuf.serialize message).length
        ⟨protobuf.serialize message ++ rest, delivery, calls + 1⟩).bind fun r =>
          some (.ok (protobuf.parse (r.1 ++
            List.replicate ((protobuf.serialize message).length - r.1.length) (byte 0))), r.2) := by
  have header := @receiveHeader_full (protobuf.serialize message ++ rest) delivery calls type.value
    (protobuf.serialize message).length type.value_lt (protobuf.small message) full
  simp only [receiveMessage, sendMessage, List.append_assoc, header, Option.bind_eq_bind,
    Option.bind_some, ne_eq, not_true_eq_false, if_false]

theorem receiveMessage_short_header {type : MessageType} (message : protobuf.Message type)
    (short : delivery calls + 1 < sizeofMessageHeader) :
    ∃ wire, receiveMessage protobuf type
        ⟨sendMessage protobuf message ++ rest, delivery, calls⟩ =
      some (.error .couldNotReadMessageHeader, wire) := by
  obtain ⟨wire, failed⟩ := @receiveHeader_short (protobuf.serialize message ++ rest) delivery calls
    type.value (protobuf.serialize message).length short
  refine ⟨wire, ?_⟩
  simp only [receiveMessage, sendMessage, List.append_assoc, failed, Option.bind_eq_bind,
    Option.bind_some]

theorem receiveMessage_full {type : MessageType} (message : protobuf.Message type)
    (header : sizeofMessageHeader ≤ delivery calls + 1)
    (body : (protobuf.serialize message).length ≤ delivery (calls + 1) + 1) :
    receiveMessage protobuf type ⟨sendMessage protobuf message ++ rest, delivery, calls⟩ =
      some (.ok message, ⟨rest, delivery, calls + 2⟩) := by
  rw [receiveMessage_of_header message header, recv_full body, Option.bind_some]
  simp only [Nat.sub_self, List.replicate_zero, List.append_nil, protobuf.roundTrip]

/-! ## Any number of messages -/

/-- Every call finds all that it asks for, where the bodies have these lengths. -/
def Full (lengths : List Nat) (delivery : Nat → Nat) (calls : Nat) : Prop :=
  ∀ j (below : j < lengths.length), sizeofMessageHeader ≤ delivery (calls + 2 * j) + 1 ∧
    lengths[j] ≤ delivery (calls + 2 * j + 1) + 1

theorem full_cons {length : Nat} {lengths : List Nat} :
    Full (length :: lengths) delivery calls ↔
      (sizeofMessageHeader ≤ delivery calls + 1 ∧ length ≤ delivery (calls + 1) + 1) ∧
        Full lengths delivery (calls + 2) := by
  have index : ∀ j, calls + 2 * (j + 1) = calls + 2 + 2 * j := by
    intro j
    omega
  constructor
  · intro full
    refine ⟨full 0 (Nat.zero_lt_succ _), ?_⟩
    intro j below
    have later := full (j + 1) (Nat.succ_lt_succ below)
    rw [index] at later
    exact later
  · intro full j below
    cases j with
    | zero => exact full.1
    | succ j =>
      rw [index]
      exact full.2 j (Nat.lt_of_succ_lt_succ below)

theorem received_of_full {messages : List protobuf.Typed}
    (full : Full (messages.map fun message => (protobuf.serialize message.2).length)
      delivery calls) : Received protobuf messages delivery calls := by
  induction messages generalizing calls with
  | nil => rfl
  | cons message messages ih =>
    rw [List.map_cons, full_cons] at full
    obtain ⟨⟨header, body⟩, rest⟩ := full
    have later := ih rest
    unfold Received at later ⊢
    rw [List.map_cons, receiveMessages, sendMessages, List.flatMap_cons,
      receiveMessage_full message.2 header body]
    simp only [Option.bind_eq_bind, Option.bind_some]
    rw [sendMessages] at later
    rw [later]
    rfl

end

/-- Messages that are byte strings. -/
def bytesProtobuf : Protobuf where
  Message := fun _ => { bytes : List Byte // bytes.length < 2 ^ 31 }
  serialize := fun message => message.1
  parse := fun bytes => if small : bytes.length < 2 ^ 31 then ⟨bytes, small⟩ else ⟨[], by decide⟩
  roundTrip := fun message => dif_pos message.2
  small := fun message => message.2

theorem serialize_parse {type : MessageType} {bytes : List Byte} (small : bytes.length < 2 ^ 31) :
    bytesProtobuf.serialize (@Protobuf.parse bytesProtobuf type bytes) = bytes :=
  congrArg Subtype.val (dif_pos small)

/-- A message of `length` bytes that are all set. -/
def solidMessage (length : Nat) : bytesProtobuf.Message .registrationRequest :=
  bytesProtobuf.parse (List.replicate length (byte 255))

theorem serialize_solidMessage {length : Nat} (small : length < 2 ^ 31) :
    bytesProtobuf.serialize (solidMessage length) = List.replicate length (byte 255) := by
  apply serialize_parse
  rw [List.length_replicate]
  exact small

/-- A message that arrives was read in two whole pieces. -/
theorem full_of_receiveMessage {length : Nat} (small : length < 2 ^ 31) {rest : List Byte}
    {delivery : Nat → Nat} {calls : Nat} {wire : Wire}
    (received : receiveMessage bytesProtobuf .registrationRequest
      ⟨sendMessage bytesProtobuf (solidMessage length) ++ rest, delivery, calls⟩ =
        some (.ok (solidMessage length), wire)) :
    sizeofMessageHeader ≤ delivery calls + 1 ∧ length ≤ delivery (calls + 1) + 1 := by
  have bytes := serialize_solidMessage small
  have header : sizeofMessageHeader ≤ delivery calls + 1 := by
    apply Nat.le_of_not_lt
    intro short
    obtain ⟨wire', failed⟩ := @receiveMessage_short_header bytesProtobuf rest delivery calls _
      (solidMessage length) short
    rw [received] at failed
    cases failed
  refine ⟨header, ?_⟩
  apply Nat.le_of_not_lt
  intro short
  have read := @recv_short (List.replicate length (byte 255)) rest delivery (calls + 1)
    (by rw [List.length_replicate]; exact short)
  rw [receiveMessage_of_header (solidMessage length) header, bytes, read, Option.bind_some,
    List.take_replicate, Nat.min_eq_left (by omega)] at received
  dsimp only at received
  rw [List.length_replicate, List.length_replicate] at received
  have buffer : bytesProtobuf.parse (List.replicate (delivery (calls + 1) + 1) (byte 255) ++
      List.replicate (length - (delivery (calls + 1) + 1)) (byte 0)) = solidMessage length :=
    Except.ok.inj (Prod.mk.inj (Option.some.inj received)).1
  -- the last byte of the buffer was not written
  have padded : byte 0 ∈ bytesProtobuf.serialize (solidMessage length) := by
    rw [← buffer, serialize_parse]
    · apply List.mem_append_right
      exact List.mem_replicate.mpr ⟨by omega, rfl⟩
    · rw [List.length_append, List.length_replicate, List.length_replicate]
      omega
  rw [bytes] at padded
  have equal := List.eq_of_mem_replicate padded
  revert equal
  decide

/-- Solid messages of these lengths. -/
def solidMessages (lengths : List Nat) : List bytesProtobuf.Typed :=
  lengths.map fun length => ⟨.registrationRequest, solidMessage length⟩

theorem full_of_received {lengths : List Nat} (small : ∀ length ∈ lengths, length < 2 ^ 31)
    {delivery : Nat → Nat} {calls : Nat}
    (received : Received bytesProtobuf (solidMessages lengths) delivery calls) :
    Full lengths delivery calls := by
  induction lengths generalizing calls with
  | nil =>
    intro j below
    exact absurd below (Nat.not_lt_zero j)
  | cons length lengths ih =>
    have lengthSmall := small length List.mem_cons_self
    rw [full_cons]
    unfold Received at received
    rw [solidMessages, List.map_cons, List.map_cons, receiveMessages, sendMessages,
      List.flatMap_cons, Option.bind_eq_bind, Option.bind_eq_some_iff] at received
    obtain ⟨⟨result, wire⟩, first, later⟩ := received
    rcases result with error | message
    · cases later
    dsimp only at later
    rw [Option.bind_eq_bind, Option.bind_eq_some_iff] at later
    obtain ⟨results, others, equal⟩ := later
    rcases results with error | messages
    · cases equal
    injection equal with equal
    injection equal with equal
    injection equal with head tail
    injection head with sameType same
    subst same
    have both := full_of_receiveMessage lengthSmall first
    refine ⟨both, ih (fun length mem => small length (List.mem_cons_of_mem _ mem)) ?_⟩
    have body : (bytesProtobuf.serialize (solidMessage length)).length ≤
        delivery (calls + 1) + 1 := by
      rw [serialize_solidMessage lengthSmall, List.length_replicate]
      exact both.2
    rw [receiveMessage_full (solidMessage length) both.1 body] at first
    obtain rfl := (Prod.mk.inj (Option.some.inj first)).2
    subst tail
    exact others

/-! ## Which deliveries keep the messages -/

/-- The lengths of the bodies. -/
def bodyLengths (protobuf : Protobuf) (messages : List protobuf.Typed) : List Nat :=
  messages.map fun message => (protobuf.serialize message.2).length

theorem bodyLengths_solidMessages {lengths : List Nat}
    (small : ∀ length ∈ lengths, length < 2 ^ 31) :
    bodyLengths bytesProtobuf (solidMessages lengths) = lengths := by
  rw [bodyLengths, solidMessages, List.map_map]
  conv_rhs => rw [← List.map_id lengths]
  apply List.map_congr_left
  intro length mem
  change (bytesProtobuf.serialize (solidMessage length)).length = length
  rw [serialize_solidMessage (small length mem), List.length_replicate]

/-- Messages with bodies of given lengths arrive, whatever they are, exactly if every
`recv` finds all the bytes it asks for. -/
theorem received_iff_full {lengths : List Nat} (small : ∀ length ∈ lengths, length < 2 ^ 31)
    (delivery : Nat → Nat) :
    (∀ (protobuf : Protobuf) (messages : List protobuf.Typed),
      bodyLengths protobuf messages = lengths → Received protobuf messages delivery 0) ↔
        Full lengths delivery 0 := by
  constructor
  · intro received
    exact full_of_received small
      (received bytesProtobuf (solidMessages lengths) (bodyLengths_solidMessages small))
  · intro full protobuf messages equal
    apply received_of_full
    rw [← equal] at full
    exact full

/-- The fields of `ProcessingRequest`; sizes of one byte are enough here. -/
structure ProcessingFields where
  size : Option (Fin 128)
  eof : Option Bool
deriving DecidableEq

namespace ProcessingFields

/-- `SerializeToArray`: each field that is set follows its tag. -/
def serialize (fields : ProcessingFields) : List Byte :=
  (match fields.size with
    | none => []
    | some size => [byte 8, byte size]) ++
  (match fields.eof with
    | none => []
    | some eof => [byte 16, byte eof.toNat])

/-- `ParseFromArray`: a later value replaces an earlier one, and the fields seen so far stay
when a tag cannot be read. -/
def parseFrom (fields : ProcessingFields) : List Byte → ProcessingFields
  | tag :: value :: rest =>
    if tag = byte 8 then
      parseFrom { fields with size := some (Fin.ofNat 128 value) } rest
    else if tag = byte 16 then
      parseFrom { fields with eof := some (value ≠ byte 0) } rest
    else fields
  | _ => fields

theorem parseFrom_serialize (fields : ProcessingFields) :
    parseFrom ⟨none, none⟩ (serialize fields) = fields := by
  rcases fields with ⟨_ | size, _ | eof⟩
  · rfl
  · cases eof <;> rfl
  · revert size
    decide
  · revert size
    cases eof <;> decide

theorem length_serialize (fields : ProcessingFields) : fields.serialize.length ≤ 4 := by
  rcases fields with ⟨_ | size, _ | eof⟩
  all_goals exact Nat.le_of_ble_eq_true rfl

end ProcessingFields

/-- Messages with the fields of `ProcessingRequest`. -/
def processingProtobuf : Protobuf where
  Message := fun _ => ProcessingFields
  serialize := ProcessingFields.serialize
  parse := ProcessingFields.parseFrom ⟨none, none⟩
  roundTrip := ProcessingFields.parseFrom_serialize
  small := fun fields => Nat.lt_of_le_of_lt fields.length_serialize (by decide)

/-- A request of five bytes, the last one. -/
def lastRequest : processingProtobuf.Typed := ⟨.processingRequest, ⟨some 5, some true⟩⟩

/-- With eight bytes or more at every call both requests arrive. -/
theorem received_iff_full_eight :
    Received processingProtobuf [lastRequest, lastRequest] (fun _ => 7) 0 := by
  have small : ∀ length ∈ [4, 4], length < 2 ^ 31 := by
    intro length mem
    rw [List.mem_pair.mp mem |>.elim id id]
    decide
  have full : Full [4, 4] (fun _ => 7) 0 := by
    rw [full_cons, full_cons]
    refine ⟨⟨Nat.le_refl 8, by decide⟩, ⟨Nat.le_refl 8, by decide⟩, ?_⟩
    intro j below
    exact absurd below (Nat.not_lt_zero j)
  exact (received_iff_full small (fun _ => 7)).mpr full processingProtobuf _ rfl

/-- The body's `recv` finds two of its four bytes. -/
def splitBody (call : Nat) : Nat := if call = 1 then 1 else 7

/-- The receiver takes the request for one that is not the last, and does not find the header
of the next one. -/
theorem splitBody_loses_eof :
    receiveMessages processingProtobuf [.processingRequest]
        ⟨sendMessages processingProtobuf [lastRequest, lastRequest], splitBody, 0⟩ =
      some (.ok [⟨.processingRequest, ⟨some 5, none⟩⟩]) ∧
    ¬ Received processingProtobuf [lastRequest, lastRequest] splitBody 0 := by
  constructor
  · rfl
  · intro received
    have thrown : receiveMessages processingProtobuf [.processingRequest, .processingRequest]
        ⟨sendMessages processingProtobuf [lastRequest, lastRequest], splitBody, 0⟩ =
          some (.error .unexpectedMessage) := rfl
    unfold Received at received
    cases thrown.symm.trans received

end MetalFs.Driver
