import SmartFecTunnel.Library.Framing
import SmartFecTunnel.Relay.Carrier

/-!
Contract: datagrams on a reliable lane (`write_stream_datagram`,
`read_stream_datagram` and the loop of `spawn_lane_readers` in
`src/quic_relay.rs`).

A lane is one QUIC stream.  Every datagram stands behind its length, and nothing
else tells where one ends.  The reader of a lane takes datagrams off it until a
read fails.

Owns: what a reader makes of the bytes of a lane, whole or cut anywhere, and of
arbitrary bytes.

Does not own: which lane a datagram takes, and a write that fails.
-/

namespace SmartFecTunnel.Relay

open SmartFecTunnel.Library

/-- Why a stream has no more bytes. -/
inductive StreamEnd where
  | finished
  | reset (code : Nat)
  | connectionLost
deriving DecidableEq, Repr

inductive ReadExactError where
  | finishedEarly (received : Nat)
  | reset (code : Nat)
  | connectionLost
deriving DecidableEq, Repr

def StreamEnd.error (received : Nat) : StreamEnd → ReadExactError
  | .finished => .finishedEarly received
  | .reset code => .reset code
  | .connectionLost => .connectionLost

/-- `RecvStream::read_exact`: the bytes that fill the buffer, and those behind them. -/
def readExact (ended : StreamEnd) (size : Nat) (receive : Bytes) :
    Except ReadExactError (Bytes × Bytes) :=
  if size ≤ receive.length then .ok (receive.take size, receive.drop size)
  else .error (ended.error receive.length)

inductive LaneError where
  | tooLarge
  | readExact (error : ReadExactError)
deriving DecidableEq, Repr

def LaneError.message : LaneError → Option String
  | .tooLarge => some "stream carrier datagram is too large"
  | .readExact _ => none

/-- The bytes of the stream after the call. -/
def writeStreamDatagram (send payload : Bytes) : Except LaneError Bytes :=
  if maxDatagram < payload.length then .error .tooLarge
  else .ok (send ++ toBeBytes 4 payload.length ++ payload)

/-- One call of the reader: the bytes it allocates for a payload, and the payload with what
is behind it. -/
structure LaneRead where
  allocated : Nat
  result : Except LaneError (Bytes × Bytes)

def readStreamDatagram (ended : StreamEnd) (receive : Bytes) : LaneRead :=
  match readExact ended 4 receive with
  | .error error => ⟨0, .error (.readExact error)⟩
  | .ok (header, receive) =>
    let size := fromBeBytes header
    if maxDatagram < size then ⟨0, .error .tooLarge⟩
    else ⟨size, (readExact ended size receive).mapError .readExact⟩

/-- What the task of a lane sends on, as long as its channel is open, and how it ends. -/
def laneReader (ended : StreamEnd) (receive : Bytes) : List Bytes × Option LaneError :=
  readAll (fun receive => (readStreamDatagram ended receive).result) receive

/-! ### One call -/

/-- A datagram behind its length. -/
def laneFrame (payload : Bytes) : Bytes := toBeBytes 4 payload.length ++ payload

theorem length_laneFrame (payload : Bytes) : (laneFrame payload).length = 4 + payload.length := by
  rw [laneFrame, List.length_append, length_toBeBytes]

theorem readExact_append (ended : StreamEnd) {size : Nat} {front : Bytes}
    (isSize : front.length = size) (rest : Bytes) :
    readExact ended size (front ++ rest) = .ok (front, rest) := by
  subst isSize
  simp [readExact]

theorem readExact_short (ended : StreamEnd) {size : Nat} {receive : Bytes}
    (short : receive.length < size) :
    readExact ended size receive = .error (ended.error receive.length) := by
  rw [readExact, if_neg (Nat.not_le.mpr short)]

/-- What `read_exact` returns is a front of the stream of the size asked for. -/
theorem readExact_ok {ended : StreamEnd} {size : Nat} {receive front rest : Bytes}
    (isRead : readExact ended size receive = .ok (front, rest)) :
    front.length = size ∧ receive = front ++ rest := by
  unfold readExact at isRead
  split at isRead
  next enough =>
    cases isRead
    exact ⟨List.length_take_of_le enough, (List.take_append_drop size receive).symm⟩
  next => cases isRead

/-- Behind a length that fits, the call reads that many bytes. -/
theorem readStreamDatagram_header (ended : StreamEnd) {size : Nat} (fits : size ≤ maxDatagram)
    (rest : Bytes) :
    readStreamDatagram ended (toBeBytes 4 size ++ rest) =
      ⟨size, (readExact ended size rest).mapError .readExact⟩ := by
  have isSize : fromBeBytes (toBeBytes 4 size) = size := by
    apply fromBeBytes_toBeBytes
    exact lt_of_le_of_lt fits (by decide)
  unfold readStreamDatagram
  rw [readExact_append ended (length_toBeBytes 4 size)]
  simp only [isSize, if_neg (Nat.not_lt.mpr fits)]

/-- Whatever the bytes, no buffer and no payload is larger than a datagram. -/
theorem readStreamDatagram_bounded (ended : StreamEnd) (receive : Bytes) :
    (readStreamDatagram ended receive).allocated ≤ maxDatagram ∧
      ∀ payload rest, (readStreamDatagram ended receive).result = .ok (payload, rest) →
        payload.length ≤ maxDatagram ∧ rest.length < receive.length := by
  unfold readStreamDatagram
  cases isHeader : readExact ended 4 receive with
  | error error =>
      refine ⟨Nat.zero_le _, ?_⟩
      rintro payload rest ⟨⟩
  | ok result =>
      obtain ⟨header, behind⟩ := result
      obtain ⟨headerLength, rfl⟩ := readExact_ok isHeader
      dsimp only
      split
      next =>
        refine ⟨Nat.zero_le _, ?_⟩
        rintro payload rest ⟨⟩
      next fits =>
        refine ⟨Nat.not_lt.mp fits, ?_⟩
        intro payload rest isRead
        cases isPayload : readExact ended (fromBeBytes header) behind with
        | error error =>
            rw [isPayload] at isRead
            cases isRead
        | ok result =>
            rw [isPayload] at isRead
            cases isRead
            obtain ⟨payloadLength, rfl⟩ := readExact_ok isPayload
            rw [List.length_append, List.length_append, payloadLength]
            constructor <;> omega

/-- A part of a datagram is not read, and its length is not misread. -/
theorem readStreamDatagram_cut (ended : StreamEnd) {payload cut : Bytes}
    (fits : payload.length ≤ maxDatagram) (isPrefix : cut <+: laneFrame payload)
    (isCut : cut ≠ laneFrame payload) :
    ∃ error, (readStreamDatagram ended cut).result = .error (.readExact error) := by
  have shorter : cut.length < 4 + payload.length := by
    rw [← length_laneFrame]
    exact lt_of_le_of_ne isPrefix.length_le fun same => isCut (isPrefix.eq_of_length same)
  by_cases inHeader : cut.length < 4
  · exact ⟨_, by rw [readStreamDatagram, readExact_short ended inHeader]⟩
  · have header : toBeBytes 4 payload.length <+: cut := by
      apply List.prefix_of_prefix_length_le (List.prefix_append _ _) isPrefix
      rw [length_toBeBytes]
      omega
    obtain ⟨rest, rfl⟩ := header
    rw [List.length_append, length_toBeBytes] at shorter
    rw [readStreamDatagram_header ended fits, readExact_short ended (by omega)]
    exact ⟨_, rfl⟩

/-- The lengths frame the datagrams of a lane. -/
theorem lane_framing (ended : StreamEnd) :
    Framing (fun payload : Bytes => payload.length ≤ maxDatagram) laneFrame
      fun receive => (readStreamDatagram ended receive).result where
  read_write := by
    intro payload rest fits
    rw [laneFrame, List.append_assoc, readStreamDatagram_header ended fits,
      readExact_append ended rfl]
    rfl
  read_cut := by
    intro payload cut fits isPrefix isCut
    obtain ⟨error, isError⟩ := readStreamDatagram_cut ended fits isPrefix isCut
    exact ⟨.readExact error, isError⟩
  read_shorter := fun receive payload rest isRead =>
    ((readStreamDatagram_bounded ended receive).2 payload rest isRead).2

/-! ### A whole lane -/

theorem writeStreamDatagram_eq {payload : Bytes} (fits : payload.length ≤ maxDatagram)
    (send : Bytes) : writeStreamDatagram send payload = .ok (send ++ laneFrame payload) := by
  rw [writeStreamDatagram, if_neg (Nat.not_lt.mpr fits), laneFrame, List.append_assoc]

/-- Datagrams that fit are written one behind the other. -/
theorem foldlM_writeStreamDatagram {payloads : List Bytes}
    (fits : ∀ payload ∈ payloads, payload.length ≤ maxDatagram) (send : Bytes) :
    payloads.foldlM writeStreamDatagram send = .ok (send ++ payloads.flatMap laneFrame) := by
  induction payloads generalizing send with
  | nil => simp [pure, Except.pure]
  | cons payload payloads inductionHypothesis =>
      have later := inductionHypothesis (fun other member =>
        fits other (List.mem_cons_of_mem _ member)) (send ++ laneFrame payload)
      rw [List.foldlM_cons, writeStreamDatagram_eq (fits payload List.mem_cons_self),
        List.flatMap_cons, ← List.append_assoc]
      exact later

/-- Datagrams written to a lane are read in order, a cut lane gives those in front of the cut
and an error, and no bytes make the reader return or allocate more than a datagram. -/
theorem lane_exact (ended : StreamEnd) :
    (∀ payloads : List Bytes, (∀ payload ∈ payloads, payload.length ≤ maxDatagram) →
      ∃ stream, payloads.foldlM writeStreamDatagram [] = .ok stream ∧
        laneReader ended stream = (payloads, some (.readExact (ended.error 0))) ∧
        ∀ cut, cut <+: stream → cut ≠ stream →
          ∃ front error, front <+: payloads ∧ front ≠ payloads ∧
            laneReader ended cut = (front, some error)) ∧
    ∀ receive : Bytes, (readStreamDatagram ended receive).allocated ≤ maxDatagram ∧
      (∀ payload rest, (readStreamDatagram ended receive).result = .ok (payload, rest) →
        payload.length ≤ maxDatagram) ∧
      (∀ payload ∈ (laneReader ended receive).1, payload.length ≤ maxDatagram) ∧
      ∃ error, (laneReader ended receive).2 = some error := by
  have framing := lane_framing ended
  constructor
  · intro payloads fits
    refine ⟨payloads.flatMap laneFrame, foldlM_writeStreamDatagram fits [], ?_, ?_⟩
    · have atEnd : laneReader ended [] = ([], some (.readExact (ended.error 0))) :=
        Framing.readAll_of_error rfl
      have whole := framing.readAll_write fits []
      change _ = (payloads ++ (laneReader ended []).1, (laneReader ended []).2) at whole
      rw [atEnd, List.append_nil, List.append_nil] at whole
      exact whole
    · intro cut isPrefix isCut
      exact framing.readAll_cut fits isPrefix isCut
  · intro receive
    obtain ⟨allocated, bounded⟩ := readStreamDatagram_bounded ended receive
    refine ⟨allocated, fun payload rest isRead => (bounded payload rest isRead).1, ?_, ?_⟩
    · exact framing.readAll_all (fun stream payload rest isRead =>
        ((readStreamDatagram_bounded ended stream).2 payload rest isRead).1) receive
    · obtain ⟨payloads, error, isRead⟩ := framing.readAll_fails receive
      exact ⟨error, congrArg Prod.snd isRead⟩

/-- Two datagrams, one of them empty, on a lane that is cut behind its first byte. -/
theorem lane_exact_pair :
    ∃ stream, [[7], []].foldlM writeStreamDatagram [] = .ok stream ∧
      laneReader .finished stream = ([[7], []], some (.readExact (.finishedEarly 0))) ∧
      ∀ cut, cut <+: stream → cut ≠ stream →
        ∃ front error, front <+: [[7], []] ∧ front ≠ [[7], []] ∧
          laneReader .finished cut = (front, some error) :=
  (lane_exact .finished).1 [[7], []] (by decide)

end SmartFecTunnel.Relay
