import EZChain.CanonicalBytes
import EZChain.Library.Frames
import EZChain.Serde.RoundTrip

/-!
# The TCP transport

An envelope goes to a peer as JSON text behind its length, and the reply comes back the same way.
The server reads one frame after the other until the connection ends; a frame that it cannot decode
and a reply that is too long close the connection.  The bytes arrive in pieces of any size, and a
call still does what handing over the values would do, once they have gone through JSON.
-/

namespace EZChain

open Checks Serde JsonText

/-! ## Frames of bytes -/

/-- `struct.pack("!I", length)`. -/
def packLength (length : ℕ) : Option Bytes :=
  if length < 2 ^ 32 then some (intToBytes 4 length) else none

theorem packLength_eq_some {length : ℕ} {header : Bytes}
    (packed : packLength length = some header) :
    length < 2 ^ 32 ∧ header = intToBytes 4 length := by
  rw [packLength] at packed
  split at packed
  next small =>
    cases packed
    exact ⟨small, rfl⟩
  · cases packed

theorem length_of_packLength {length : ℕ} {header : Bytes}
    (packed : packLength length = some header) : header.length = 4 := by
  obtain ⟨-, rfl⟩ := packLength_eq_some packed
  exact length_intToBytes 4 length

theorem keyInt_of_packLength {length : ℕ} {header : Bytes}
    (packed : packLength length = some header) : keyInt header = length := by
  obtain ⟨small, rfl⟩ := packLength_eq_some packed
  exact keyInt_intToBytes small

theorem packLength_keyInt {header : Bytes} (width : header.length = 4) :
    packLength (keyInt header) = some header := by
  have small : keyInt header < 2 ^ 32 := by
    have bound := keyInt_lt_pow header
    rwa [width] at bound
  rw [packLength, if_pos small, ← width, intToBytes_keyInt]

/-- Lengths are written in four bytes, the most significant one first. -/
def lengthHeader : FrameHeader UInt8 where
  width := 4
  write := packLength
  read := keyInt
  width_pos := Nat.succ_pos 3
  length_of_write := length_of_packLength
  read_of_write := keyInt_of_packLength
  write_of_read := packLength_keyInt

/-! ## Values as bytes -/

/-- What a transport raises. -/
inductive TransportError where
  | typeError (message : String)
  | unicodeDecodeError
  | serde (error : SerdeError)
  | structError
  /-- `asyncio.IncompleteReadError`. -/
  | incompleteReadError
  | connectionError (message : String)

/-- `data.decode("utf-8")`. -/
def decodeUtf8 (data : Bytes) : Option String := String.fromUTF8? ⟨data.toArray⟩

/-- The values that a transport carries, with what it does to them. -/
structure JsonCodec (V : Type) where
  /-- `loads_json`; the fields that a value does not name are filled in anew each time, so that the
  result depends on how many values were read before. -/
  loadsJson : ℕ → String → Except SerdeError V
  /-- `dumps_json`. -/
  dumpsJson : V → Except SerdeError String
  /-- `isinstance(value, NetworkEnvelope)`. -/
  isNetworkEnvelope : V → Bool
  /-- `{"ok": False, "error": error}`. -/
  failureReply : String → V
  /-- `response or {"ok": True}`. -/
  orOk : V → V

namespace JsonCodec

variable {V : Type} (codec : JsonCodec V)

/-- `dumps_json(value).encode("utf-8")`, which for an envelope is `encode_envelope`. -/
def encode (value : V) : Except TransportError Bytes := do
  let text ← (codec.dumpsJson value).mapError .serde
  return utf8Bytes text

/-- `loads_json(data.decode("utf-8"))`. -/
def decode (count : ℕ) (data : Bytes) : Except TransportError V := do
  let raw ← demand (decodeUtf8 data) .unicodeDecodeError
  (codec.loadsJson count raw).mapError .serde

/-- `decode_envelope`. -/
def decodeEnvelope (count : ℕ) (data : Bytes) : Except TransportError V := do
  let parsed ← codec.decode count data
  require (codec.isNetworkEnvelope parsed) (.typeError "decoded payload is not a NetworkEnvelope")
  return parsed

/-- A value behind the length of its bytes. -/
def wire (value : V) : Except TransportError Bytes := do
  let message ← codec.encode value
  demand (lengthHeader.frame message) .structError

end JsonCodec

theorem decodeUtf8_utf8Bytes (text : String) : decodeUtf8 (utf8Bytes text) = some text := by
  have bytes_eq : (⟨(utf8Bytes text).toArray⟩ : ByteArray) = text.toByteArray := by
    rw [utf8Bytes, Array.toArray_toList]
  rw [decodeUtf8, bytes_eq, String.fromUTF8?, dif_pos text.isValidUTF8]
  rfl

/-! ## The server -/

/-- An exception that a handler raised. -/
structure HandlerException where
  /-- `type(exc).__name__`. -/
  typeName : String
  /-- `str(exc)`. -/
  text : String

/-- `TCPNetworkTransport`. -/
structure TCPNetworkTransport (σ V : Type) where
  /-- The handler that was set; it is called with an envelope and the address of the other side. -/
  handler : Option (V → String → σ → Except HandlerException V × σ)

/-- What a connection of the server has done. -/
structure Served (σ : Type) where
  /-- The state of the handler. -/
  state : σ
  /-- The number of envelopes that were decoded. -/
  decoded : ℕ
  /-- The bytes that were written back. -/
  written : Bytes

namespace TCPNetworkTransport

variable {σ V : Type} (transport : TCPNetworkTransport σ V) (codec : JsonCodec V)

/-- Call the handler, for the reply that is sent. -/
def respond (envelope : V) (remote : String) (state : σ) : V × σ :=
  match transport.handler with
  | none => (codec.orOk (codec.failureReply "missing_handler"), state)
  | some handler =>
      match handler envelope remote state with
      | (.ok response, after) => (codec.orOk response, after)
      | (.error exception, after) =>
          (codec.orOk (codec.failureReply
            ("handler_exception:" ++ exception.typeName ++ ":" ++ exception.text)), after)

/-- One turn of the loop in `_handle_conn`, from the payload of a frame on. -/
def handlePayload (remote : String) (served : Served σ) (payload : Bytes) : Served σ × Bool :=
  match codec.decodeEnvelope served.decoded payload with
  | .error _ => (served, false)
  | .ok envelope =>
      let responded := transport.respond codec envelope remote served.state
      match codec.wire responded.1 with
      | .error _ => (⟨responded.2, served.decoded + 1, served.written⟩, false)
      | .ok wire => (⟨responded.2, served.decoded + 1, served.written ++ wire⟩, true)

/-- `_handle_conn`, until the other side has closed the connection. -/
def handleConn (remote : String) (served : Served σ) (chunks : List Bytes) : Served σ :=
  lengthHeader.serve (transport.handlePayload codec remote) served chunks

/-! ## The client -/

/-- What a client makes of the bytes that come back. -/
def readReply (incomplete : IncompleteRead → TransportError) (chunks : List Bytes) :
    Except TransportError V :=
  match (lengthHeader.readFrame chunks).1 with
  | .error missing => .error (incomplete missing)
  | .ok raw => codec.decode 0 raw

/-- A call over a new connection.  The bytes of the request and of the reply arrive in pieces; the
error for a reply that ends early is a parameter. -/
def requestReply (incomplete : IncompleteRead → TransportError) (there back : Chunking UInt8)
    (server client : JsonCodec V) (remote : String) (envelope : V) (state : σ) :
    Except TransportError V × σ :=
  match client.wire envelope with
  | .error error => (.error error, state)
  | .ok request =>
      let served := transport.handleConn server remote ⟨state, 0, []⟩ (there.cut request)
      (readReply client incomplete (back.cut served.written), served.state)

/-- `send_blocking`. -/
def sendBlocking : Chunking UInt8 → Chunking UInt8 → JsonCodec V → JsonCodec V → String → V → σ →
    Except TransportError V × σ :=
  transport.requestReply fun missing => .connectionError
    ("incomplete_blocking_read:" ++ toString missing.got ++ "/" ++ toString missing.needed)

/-- `send`. -/
def send : Chunking UInt8 → Chunking UInt8 → JsonCodec V → JsonCodec V → String → V → σ →
    Except TransportError V × σ :=
  transport.requestReply fun _ => .incompleteReadError

/-! ## Connections -/

/-- The payloads that a connection brings and the replies to them, in order. -/
inductive Converses (remote : String) :
    Served σ → List Bytes → List Bytes → Served σ → Prop
  | ended (served : Served σ) : Converses remote served [] [] served
  | undecodable {served : Served σ} {payload : Bytes} {error : TransportError}
      (fails : codec.decodeEnvelope served.decoded payload = .error error)
      (unread : List Bytes) : Converses remote served (payload :: unread) [] served
  /-- The reply cannot be written as JSON, or it is too long. -/
  | unsent {served : Served σ} {payload : Bytes} {envelope : V} {error : TransportError}
      (decodes : codec.decodeEnvelope served.decoded payload = .ok envelope)
      (fails : codec.wire (transport.respond codec envelope remote served.state).1 = .error error)
      (unread : List Bytes) : Converses remote served (payload :: unread) []
        ⟨(transport.respond codec envelope remote served.state).2, served.decoded + 1,
          served.written⟩
  | replied {served last : Served σ} {payload message wire : Bytes}
      {payloads replies : List Bytes} {envelope : V}
      (decodes : codec.decodeEnvelope served.decoded payload = .ok envelope)
      (encodes : codec.encode (transport.respond codec envelope remote served.state).1 =
        .ok message)
      (framed : lengthHeader.frame message = some wire)
      (others : Converses remote
        ⟨(transport.respond codec envelope remote served.state).2, served.decoded + 1,
          served.written ++ wire⟩ payloads replies last) :
      Converses remote served (payload :: payloads) (message :: replies) last

variable {transport codec} {remote : String}

section Turn

variable {served : Served σ} {payload : Bytes}

theorem handlePayload_of_error {error : TransportError}
    (fails : codec.decodeEnvelope served.decoded payload = .error error) :
    transport.handlePayload codec remote served payload = (served, false) := by
  rw [handlePayload, fails]

variable {envelope : V}

theorem handlePayload_of_unsent {error : TransportError}
    (decodes : codec.decodeEnvelope served.decoded payload = .ok envelope)
    (fails : codec.wire (transport.respond codec envelope remote served.state).1 =
      .error error) :
    transport.handlePayload codec remote served payload =
      (⟨(transport.respond codec envelope remote served.state).2, served.decoded + 1,
        served.written⟩, false) := by
  rw [handlePayload, decodes]
  simp only [fails]

theorem handlePayload_of_wire {wire : Bytes}
    (decodes : codec.decodeEnvelope served.decoded payload = .ok envelope)
    (sent : codec.wire (transport.respond codec envelope remote served.state).1 = .ok wire) :
    transport.handlePayload codec remote served payload =
      (⟨(transport.respond codec envelope remote served.state).2, served.decoded + 1,
        served.written ++ wire⟩, true) := by
  rw [handlePayload, decodes]
  simp only [sent]

end Turn

theorem wire_eq_ok {value : V} {wire : Bytes} :
    codec.wire value = .ok wire ↔
      ∃ message, codec.encode value = .ok message ∧ lengthHeader.frame message = some wire := by
  simp only [JsonCodec.wire, bind_eq_ok, demand_eq_ok]

/-- Handling payloads one after the other is such a conversation. -/
theorem converses_handleAll (served : Served σ) (payloads : List Bytes) : ∃ replies,
    transport.Converses codec remote served payloads replies
      (FrameHeader.handleAll (transport.handlePayload codec remote) served payloads) := by
  induction payloads generalizing served with
  | nil => exact ⟨[], .ended served⟩
  | cons payload payloads induction =>
      rw [FrameHeader.handleAll]
      rcases decodes : codec.decodeEnvelope served.decoded payload with error | envelope
      · rw [handlePayload_of_error decodes]
        exact ⟨[], .undecodable decodes payloads⟩
      · rcases sent : codec.wire (transport.respond codec envelope remote served.state).1
          with error | wire
        · rw [handlePayload_of_unsent decodes sent]
          exact ⟨[], .unsent decodes sent payloads⟩
        · rw [handlePayload_of_wire decodes sent]
          obtain ⟨message, encodes, framed⟩ := wire_eq_ok.mp sent
          obtain ⟨replies, others⟩ := induction
            ⟨(transport.respond codec envelope remote served.state).2, served.decoded + 1,
              served.written ++ wire⟩
          exact ⟨_, .replied decodes encodes framed others⟩

/-- A connection writes the frames of its replies. -/
theorem Converses.written {served last : Served σ} {payloads replies : List Bytes}
    (converses : transport.Converses codec remote served payloads replies last) :
    ∃ frames, List.Forall₂ (fun reply framed => lengthHeader.frame reply = some framed) replies
      frames ∧ last.written = served.written ++ frames.flatten := by
  induction converses with
  | ended | undecodable | unsent => exact ⟨[], .nil, (List.append_nil _).symm⟩
  | @replied served last payload message wire payloads replies envelope _ _ framed _ induction =>
      obtain ⟨frames, all_framed, written⟩ := induction
      refine ⟨wire :: frames, .cons framed all_framed, ?_⟩
      rw [written, List.flatten_cons, List.append_assoc]

/-- Every stream of bytes consists of frames and the beginning of another one.  In whatever pieces
it arrives, the server answers the payloads of the frames in order, each once, until it cannot
decode one or cannot send its reply, and writes the frames of its replies and nothing else. -/
theorem handleConn_stream (transport : TCPNetworkTransport σ V) (codec : JsonCodec V)
    (remote : String) (stream : Bytes) : ∃ payloads frames tail,
    List.Forall₂ (fun payload framed => lengthHeader.frame payload = some framed) payloads
      frames ∧
    stream = frames.flatten ++ tail ∧ lengthHeader.split? tail = none ∧
    ∀ served : Served σ, ∃ replies replyFrames,
      List.Forall₂ (fun reply framed => lengthHeader.frame reply = some framed) replies
        replyFrames ∧
      ∀ pieces : Chunking UInt8,
        let last := transport.handleConn codec remote served (pieces.cut stream)
        transport.Converses codec remote served payloads replies last ∧
          last.written = served.written ++ replyFrames.flatten := by
  obtain ⟨payloads, frames, tail, framed, stream_eq, incomplete⟩ :=
    @FrameHeader.exists_frames UInt8 lengthHeader stream
  refine ⟨payloads, frames, tail, framed, stream_eq, incomplete, fun served => ?_⟩
  obtain ⟨replies, converses⟩ :=
    @converses_handleAll σ V transport codec remote served payloads
  obtain ⟨replyFrames, all_framed, written⟩ := converses.written
  refine ⟨replies, replyFrames, all_framed, fun pieces => ?_⟩
  have last_eq : transport.handleConn codec remote served (pieces.cut stream) =
      FrameHeader.handleAll (transport.handlePayload codec remote) served payloads :=
    FrameHeader.serve_frames framed incomplete (fun _ => pieces.ne_nil_of_mem)
      ((pieces.flatten_cut stream).trans stream_eq)
  rw [last_eq]
  exact ⟨converses, written⟩

variable {pieces : Chunking UInt8}

theorem handleConn_request {request payload : Bytes} (served : Served σ)
    (framed : lengthHeader.frame payload = some request) :
    transport.handleConn codec remote served (pieces.cut request) =
      (transport.handlePayload codec remote served payload).1 := by
  have handled := @FrameHeader.serve_frames UInt8 _ lengthHeader
    (transport.handlePayload codec remote) (pieces.cut request) [payload] [request] [] served
    (.cons framed .nil) FrameHeader.split?_nil (fun _ => pieces.ne_nil_of_mem)
    ((pieces.flatten_cut request).trans (by simp))
  rw [handleConn, handled, FrameHeader.handleAll, FrameHeader.handleAll, ite_self]

theorem readReply_nil {incomplete : IncompleteRead → TransportError} :
    readReply codec incomplete (pieces.cut []) = .error (incomplete ⟨0, 4⟩) := by
  rw [pieces.cut_nil, readReply, FrameHeader.readFrame_nil]
  rfl

theorem readReply_frame {incomplete : IncompleteRead → TransportError} {message wire : Bytes}
    (framed : lengthHeader.frame message = some wire) :
    readReply codec incomplete (pieces.cut wire) = codec.decode 0 message := by
  have found : lengthHeader.split? (pieces.cut wire).flatten = some (message, []) := by
    have first := FrameHeader.split?_frame framed []
    rwa [List.append_nil, ← pieces.flatten_cut wire] at first
  obtain ⟨left, read, -, -⟩ := FrameHeader.readFrame_of_some (fun _ => pieces.ne_nil_of_mem) found
  rw [readReply, read]

end TCPNetworkTransport

/-! ## Values as JSON -/

section Datum

/-- `isinstance(value, NetworkEnvelope)`. -/
def isNetworkEnvelope : Datum → Bool
  | .dataclass .networkEnvelope _ => true
  | _ => false

/-- `{"ok": False, "error": error}`. -/
def failureReply (error : String) : Datum := .dict [("ok", .bool false), ("error", .str error)]

/-- `response or {"ok": True}`. -/
def orOk (response : Datum) : Datum :=
  if response.truthy then response else .dict [("ok", .bool true)]

/-- The codec for values without floating point numbers.  It reads the texts that `dumps_json`
writes for them. -/
def datumCodec (factories : ℕ → Factories) : JsonCodec Datum where
  loadsJson count raw := loadsJson (factories count) raw.toList
  dumpsJson value := .ok (String.ofList (dumpsJson value))
  isNetworkEnvelope := isNetworkEnvelope
  failureReply := failureReply
  orOk := orOk

/-- The bytes of a value. -/
def jsonBytes (value : Datum) : Bytes := utf8Bytes (String.ofList (dumpsJson value))

/-- A transport whose handler replies with a value: the keys of a dictionary are distinct. -/
structure DatumTransport (σ : Type) extends TCPNetworkTransport σ Datum where
  keysDistinct : ∀ call ∈ handler, ∀ {envelope remote state response after},
    call envelope remote state = (.ok response, after) → (toJsonObj response).KeysDistinct

variable {factories : ℕ → Factories}

@[simp]
theorem encode_datumCodec (value : Datum) :
    (datumCodec factories).encode value = .ok (jsonBytes value) := rfl

theorem decode_jsonBytes (count : ℕ) {value : Datum}
    (distinct : (toJsonObj value).KeysDistinct) :
    (datumCodec factories).decode count (jsonBytes value) =
      (readBack (factories count) value).mapError .serde := by
  have text_eq : (String.ofList (dumpsJson value)).toList = dumps (toJsonObj value) :=
    String.toList_ofList
  rw [JsonCodec.decode, jsonBytes, decodeUtf8_utf8Bytes]
  simp only [demand, bind, Except.bind, datumCodec]
  rw [text_eq, loadsJson, loads_dumps distinct]
  rfl

theorem frame_eq_none_iff {message : Bytes} :
    lengthHeader.frame message = none ↔ 2 ^ 32 ≤ message.length := by
  rw [FrameHeader.frame, Option.map_eq_none_iff]
  change packLength message.length = none ↔ _
  rw [packLength]
  split
  next small => exact iff_of_false (Option.some_ne_none _) (Nat.not_le.mpr small)
  next large => exact iff_of_true rfl (Nat.not_lt.mp large)

theorem wire_of_long {value : Datum} (long : 2 ^ 32 ≤ (jsonBytes value).length) :
    (datumCodec factories).wire value = .error .structError := by
  rw [JsonCodec.wire, encode_datumCodec]
  simp only [bind, Except.bind, frame_eq_none_iff.mpr long]
  rfl

theorem wire_of_frame {value : Datum} {wire : Bytes}
    (framed : lengthHeader.frame (jsonBytes value) = some wire) :
    (datumCodec factories).wire value = .ok wire := by
  rw [JsonCodec.wire, encode_datumCodec]
  simp only [bind, Except.bind, framed]
  rfl

end Datum

/-! ## Calls -/

namespace TCPNetworkTransport

variable {σ : Type}

/-- The envelope that a handler gets: what JSON makes of it, if that is an envelope. -/
def receivedEnvelope (factories : Factories) (envelope : Datum) : Except TransportError Datum := do
  let parsed ← (readBack factories envelope).mapError .serde
  require (isNetworkEnvelope parsed) (.typeError "decoded payload is not a NetworkEnvelope")
  return parsed

/-- A call that hands the values over, once they have gone through JSON. -/
def directCall (transport : TCPNetworkTransport σ Datum)
    (incomplete : IncompleteRead → TransportError) (serverFactories : ℕ → Factories)
    (factories : Factories) (remote : String) (envelope : Datum) (state : σ) :
    Except TransportError Datum × σ :=
  if 2 ^ 32 ≤ (jsonBytes envelope).length then (.error .structError, state)
  else
    match receivedEnvelope (serverFactories 0) envelope with
    | .error _ => (.error (incomplete ⟨0, 4⟩), state)
    | .ok received =>
        let responded := transport.respond (datumCodec serverFactories) received remote state
        if 2 ^ 32 ≤ (jsonBytes responded.1).length then
          (.error (incomplete ⟨0, 4⟩), responded.2)
        else ((readBack factories responded.1).mapError .serde, responded.2)

theorem keysDistinct_failureReply (error : String) :
    (toJsonObj (failureReply error)).KeysDistinct := by
  simp [failureReply, toJsonObj, toJsonEntries, Value.KeysDistinct, EntriesDistinct]

theorem keysDistinct_orOk {response : Datum} (distinct : (toJsonObj response).KeysDistinct) :
    (toJsonObj (orOk response)).KeysDistinct := by
  rw [orOk]
  split
  · exact distinct
  · simp [toJsonObj, toJsonEntries, Value.KeysDistinct, EntriesDistinct]

theorem keysDistinct_respond (transport : DatumTransport σ) (factories : ℕ → Factories)
    (envelope : Datum) (remote : String) (state : σ) :
    (toJsonObj (transport.respond (datumCodec factories) envelope remote
      state).1).KeysDistinct := by
  rw [respond]
  split
  · exact keysDistinct_orOk (keysDistinct_failureReply _)
  next handler is_set =>
    split
    next response after called =>
      exact keysDistinct_orOk (transport.keysDistinct handler is_set called)
    · exact keysDistinct_orOk (keysDistinct_failureReply _)

theorem decodeEnvelope_jsonBytes (serverFactories : ℕ → Factories) {envelope : Datum}
    (distinct : (toJsonObj envelope).KeysDistinct) :
    (datumCodec serverFactories).decodeEnvelope 0 (jsonBytes envelope) =
      receivedEnvelope (serverFactories 0) envelope := by
  rw [JsonCodec.decodeEnvelope, decode_jsonBytes 0 distinct, receivedEnvelope]
  rfl

/-- In whatever pieces the request and the reply arrive, a call does what handing over the values
would do. -/
theorem requestReply_eq_directCall (transport : DatumTransport σ)
    (incomplete : IncompleteRead → TransportError) (there back : Chunking UInt8)
    (serverFactories : ℕ → Factories) (clientFactories : Factories) (remote : String)
    {envelope : Datum} (state : σ) (distinct : (toJsonObj envelope).KeysDistinct) :
    transport.requestReply incomplete there back (datumCodec serverFactories)
        (datumCodec fun _ => clientFactories) remote envelope state =
      transport.directCall incomplete serverFactories clientFactories remote envelope state := by
  rw [requestReply, directCall]
  rcases framed : lengthHeader.frame (jsonBytes envelope) with _ | request
  · have long := frame_eq_none_iff.mp framed
    rw [wire_of_long long, if_pos long]
  · have fits : ¬ 2 ^ 32 ≤ (jsonBytes envelope).length := by
      rw [← frame_eq_none_iff, framed]
      exact Option.some_ne_none request
    let fresh : Served σ := ⟨state, 0, []⟩
    have decoded_eq := decodeEnvelope_jsonBytes serverFactories distinct
    have served_eq := @handleConn_request σ Datum transport.toTCPNetworkTransport
      (datumCodec serverFactories) remote there request _ fresh framed
    rw [wire_of_frame framed, if_neg fits]
    simp only [fresh] at served_eq
    simp only [served_eq]
    rcases arrives : receivedEnvelope (serverFactories 0) envelope with error | received
    · have turn := @handlePayload_of_error σ Datum transport.toTCPNetworkTransport
        (datumCodec serverFactories) remote fresh _ _ (decoded_eq.trans arrives)
      simp only [fresh] at turn
      simp only [turn, readReply_nil]
    · have reply_distinct := keysDistinct_respond transport serverFactories received remote state
      rcases replied : lengthHeader.frame (jsonBytes (transport.respond
        (datumCodec serverFactories) received remote state).1) with _ | wire
      · have long := frame_eq_none_iff.mp replied
        have turn := @handlePayload_of_unsent σ Datum transport.toTCPNetworkTransport
          (datumCodec serverFactories) remote fresh _ received _ (decoded_eq.trans arrives)
          (wire_of_long long)
        simp only [fresh] at turn
        simp only [turn, readReply_nil, if_pos long]
      · have reply_fits : ¬ 2 ^ 32 ≤ (jsonBytes (transport.respond
            (datumCodec serverFactories) received remote state).1).length :=
          fun long => Option.some_ne_none wire (replied.symm.trans (frame_eq_none_iff.mpr long))
        have turn := @handlePayload_of_wire σ Datum transport.toTCPNetworkTransport
          (datumCodec serverFactories) remote fresh _ received _ (decoded_eq.trans arrives)
          (wire_of_frame replied)
        simp only [fresh, List.nil_append] at turn
        simp only [turn, if_neg reply_fits, readReply_frame replied,
          decode_jsonBytes 0 reply_distinct]

end TCPNetworkTransport

section Samples

/-- An envelope with an empty payload. -/
def ping : Datum :=
  .dataclass .networkEnvelope
    [("msg_type", .str "ping"), ("sender_id", .str "a"), ("recipient_id", .str "b"),
      ("payload", .dict []), ("request_id", .str "r"), ("created_at", .int 0)]

theorem typed_ping : HasType (.oneOf [.networkEnvelope]) ping := by
  refine .dataclass (.head _) rfl ?_ rfl
  simp [ClassName.fields, field, HasType.int, HasType.str, HasType.freeForm, HasType.present]

theorem keysDistinct_ok : (toJsonObj (.dict [])).KeysDistinct := by
  simp [toJsonObj, toJsonEntries, Value.KeysDistinct, EntriesDistinct]

/-- A handler that counts the envelopes and has nothing to reply. -/
def countingTransport : DatumTransport ℕ where
  handler := some fun _ _ count => (.ok (.dict []), count + 1)
  keysDistinct := by
    intro call is_set envelope remote state response after called
    cases is_set
    cases called
    exact keysDistinct_ok

/-- Every byte arrives on its own. -/
def bytewise : Chunking UInt8 where
  cut stream := stream.map List.singleton
  flatten_cut stream := by
    induction stream with
    | nil => rfl
    | cons byte stream induction => rw [List.map_cons, List.flatten_cons, induction]; rfl
  ne_nil_of_mem := by
    intro stream chunk member
    obtain ⟨byte, -, rfl⟩ := List.mem_map.mp member
    exact List.cons_ne_nil _ _

theorem receivedEnvelope_ping :
    TCPNetworkTransport.receivedEnvelope ⟨"", 0⟩ ping = .ok ping := by
  have restorable : ping.Restorable false := by
    simp [ping, Datum.Restorable, FieldsRestorable, EntriesRestorable]
  have restored := (@HasType.restored_iff ⟨"", 0⟩ _ _ typed_ping false).mpr restorable
  rw [map_asField_false] at restored
  rw [TCPNetworkTransport.receivedEnvelope, restored]
  rfl

theorem readBack_ok : readBack ⟨"", 0⟩ (orOk (.dict [])) = .ok (.dict [("ok", .bool true)]) := by
  have typed : HasType .object (.dict [("ok", .bool true)]) :=
    .dictObject (List.pairwise_singleton _ _)
      (List.forall_mem_singleton.mpr (.object (.bool true)))
  have restorable : (Datum.dict [("ok", .bool true)]).Restorable false := by
    simp [Datum.Restorable, EntriesRestorable, reservedKeys]
  have restored := (@HasType.restored_iff ⟨"", 0⟩ _ _ typed false).mpr restorable
  rw [map_asField_false] at restored
  exact restored

/-- A call over a connection that delivers single bytes. -/
theorem requestReply_ping : countingTransport.sendBlocking bytewise bytewise
    (datumCodec fun _ => ⟨"", 0⟩) (datumCodec fun _ => ⟨"", 0⟩) "127.0.0.1:1" ping 0 =
      (.ok (.dict [("ok", .bool true)]), 1) := by
  have distinct : (toJsonObj ping).KeysDistinct := typed_ping.keysDistinct
  have request_fits : ¬ 2 ^ 32 ≤ (jsonBytes ping).length := by decide +kernel
  have reply_fits : ¬ 2 ^ 32 ≤ (jsonBytes (orOk (.dict []))).length := by decide +kernel
  have responded : countingTransport.respond (datumCodec fun _ => ⟨"", 0⟩) ping "127.0.0.1:1" 0 =
    (orOk (.dict []), 1) := rfl
  rw [TCPNetworkTransport.sendBlocking,
    TCPNetworkTransport.requestReply_eq_directCall countingTransport _ bytewise bytewise _ _ _ _
      distinct, TCPNetworkTransport.directCall, if_neg request_fits, receivedEnvelope_ping]
  simp only [responded, if_neg reply_fits, readBack_ok]
  rfl

end Samples

end EZChain
