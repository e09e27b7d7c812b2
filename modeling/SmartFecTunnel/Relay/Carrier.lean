import SmartFecTunnel.Library.Chunks
import SmartFecTunnel.Library.Layout
import SmartFecTunnel.Library.Run
import SmartFecTunnel.Library.Table

/-!
Contract: datagrams carried over QUIC DATAGRAM frames (`send_carrier` and
`CarrierReassembly` in `src/quic_relay.rs`).

`sendCarrier` cuts a payload into fragments of at most the negotiated size, each
behind a header with the number of the message, the index and the count.
`CarrierReassembly.push` collects the fragments of a message and hands out its
payload once none is missing.

The clock of the receiver is in nanoseconds.  `Instant::duration_since` is zero
for a later instant, as subtraction of natural numbers is.

Owns: the frames of a sent message and what `push` reads in them.

Does not own: runs of a receiver.
-/

namespace SmartFecTunnel.Relay

open SmartFecTunnel.Library

def maxDatagram : Nat := 65_535
def carrierHeader : Nat := 12
def maxCarrierFragments : Nat := 128
def maxCarrierGroups : Nat := 2048
def carrierTtl : Nat := 3_000_000_000

/-- `SFT-Q-PING-1` -/
def carrierPing : Bytes := [0x53, 0x46, 0x54, 0x2d, 0x51, 0x2d, 0x50, 0x49, 0x4e, 0x47, 0x2d, 0x31]

/-- `SFT-Q-PONG-1` -/
def carrierPong : Bytes := [0x53, 0x46, 0x54, 0x2d, 0x51, 0x2d, 0x50, 0x4f, 0x4e, 0x47, 0x2d, 0x31]

/-! ### Sending -/

inductive SendError where
  | notNegotiated
  | sizeTooSmall
  | tooManyFragments
deriving DecidableEq, Repr

def SendError.message : SendError → String
  | .notNegotiated => "peer did not negotiate QUIC DATAGRAM"
  | .sizeTooSmall => "negotiated QUIC DATAGRAM size is too small"
  | .tooManyFragments => "QUIC carrier requires too many fragments"

/-- One fragment behind its header. -/
def carrierFrame (message index count : Nat) (part : Bytes) : Bytes :=
  pack [(8, message), (2, index), (2, count)] ++ part

/-- The counter after the call, and the frames handed to the connection. -/
def sendCarrier (maximum : Option Nat) (payload : Bytes) (message : Nat) :
    Nat × Except SendError (List Bytes) :=
  match maximum with
  | none => (message, .error .notNegotiated)
  | some maximum =>
    if maximum ≤ carrierHeader then (message, .error .sizeTooSmall)
    else
      let chunk := maximum - carrierHeader
      let count := divCeil (max payload.length 1) chunk
      if maxCarrierFragments < count then (message, .error .tooManyFragments)
      else
        let message := (message + 1) % 2 ^ 64
        let frames := (chunks chunk payload).zipIdx.map fun entry =>
          carrierFrame message entry.2 count entry.1
        -- The loop above sends nothing for an empty payload.
        let empty := if payload.isEmpty then [carrierFrame message 0 1 []] else []
        (message, .ok (frames ++ empty))

/-! ### Receiving -/

inductive CarrierError where
  | shortFragment
  | invalidDimensions
  | limitReached
  | inconsistentCount
  | datagramTooLarge
deriving DecidableEq, Repr

def CarrierError.message : CarrierError → String
  | .shortFragment => "short QUIC carrier fragment"
  | .invalidDimensions => "invalid QUIC carrier dimensions"
  | .limitReached => "QUIC carrier reassembly limit reached"
  | .inconsistentCount => "inconsistent QUIC carrier fragment count"
  | .datagramTooLarge => "reassembled QUIC carrier datagram too large"

structure CarrierGroup where
  created : Nat
  parts : List (Option Bytes)

structure CarrierReassembly where
  groups : Table Nat CarrierGroup

namespace CarrierReassembly

def default : CarrierReassembly := ⟨∅⟩

/-- The groups that are not older than `CARRIER_TTL`. -/
def unexpired (reassembly : CarrierReassembly) (now : Nat) : Table Nat CarrierGroup :=
  reassembly.groups.retain fun _ group => decide (now - group.created ≤ carrierTtl)

/-- The end of `push`: a group without a missing part is taken out and joined. -/
def finish (groups : Table Nat CarrierGroup) (message : Nat) (group : CarrierGroup) :
    CarrierReassembly × Except CarrierError (Option Bytes) :=
  if group.parts.any Option.isNone then (⟨groups.insert message group⟩, .ok none)
  else
    let parts := group.parts.reduceOption
    if maxDatagram < (parts.map List.length).sum then
      (⟨groups.erase message⟩, .error .datagramTooLarge)
    else (⟨groups.erase message⟩, .ok (some parts.flatten))

def push (reassembly : CarrierReassembly) (frame : Bytes) (now : Nat) :
    CarrierReassembly × Except CarrierError (Option Bytes) :=
  if frame.length < carrierHeader then (reassembly, .error .shortFragment)
  else
    let message := number frame 0 8
    let index := number frame 8 10
    let count := number frame 10 12
    if count = 0 ∨ maxCarrierFragments < count ∨ count ≤ index then
      (reassembly, .error .invalidDimensions)
    else
      let groups := reassembly.unexpired now
      if message ∉ groups ∧ maxCarrierGroups ≤ groups.size then
        (⟨groups⟩, .error .limitReached)
      else
        let group := (groups.lookup message).getD ⟨now, List.replicate count none⟩
        let groups := groups.insert message group
        if group.parts.length ≠ count then (⟨groups⟩, .error .inconsistentCount)
        else
          -- A part that is already there stays.
          let part := (group.parts[index]?.join).getD (frame.drop carrierHeader)
          finish groups message { group with parts := group.parts.set index (some part) }

end CarrierReassembly

/-! ### The frames of a message -/

/-- The parts of a payload, one for each frame. -/
structure Parts (payload : Bytes) (parts : List Bytes) : Prop where
  pos : 0 < parts.length
  few : parts.length ≤ maxCarrierFragments
  joined : parts.flatten = payload

/-- The frames of a message with these parts. -/
def framesOf (message : Nat) (parts : List Bytes) : List Bytes :=
  parts.zipIdx.map fun entry => carrierFrame message entry.2 parts.length entry.1

theorem length_framesOf (message : Nat) (parts : List Bytes) :
    (framesOf message parts).length = parts.length := by
  simp [framesOf]

theorem getElem?_framesOf {message index : Nat} {parts : List Bytes} {frame : Bytes}
    (found : (framesOf message parts)[index]? = some frame) :
    ∃ part, parts[index]? = some part ∧ frame = carrierFrame message index parts.length part := by
  unfold framesOf at found
  rw [List.getElem?_map, List.getElem?_zipIdx] at found
  cases isPart : parts[index]? with
  | none => simp [isPart] at found
  | some part =>
      simp only [isPart, Option.map_some, Nat.zero_add, Option.some.injEq] at found
      exact ⟨part, rfl, found.symm⟩

/-- What the receiver reads in a frame. -/
theorem carrierFrame_fields {message index count : Nat} (part : Bytes)
    (messageFits : message < 256 ^ 8) (indexFits : index < 256 ^ 2) (countFits : count < 256 ^ 2) :
    carrierHeader ≤ (carrierFrame message index count part).length ∧
    number (carrierFrame message index count part) 0 8 = message ∧
    number (carrierFrame message index count part) 8 10 = index ∧
    number (carrierFrame message index count part) 10 12 = count ∧
    (carrierFrame message index count part).drop carrierHeader = part := by
  unfold carrierFrame
  refine ⟨?_, ?_, ?_, ?_, ?_⟩
  · rw [List.length_append, length_pack]
    exact Nat.le_add_right _ _
  · exact number_pack 0 rfl messageFits rfl rfl part
  · exact number_pack 1 rfl indexFits rfl rfl part
  · exact number_pack 2 rfl countFits rfl rfl part
  · exact List.drop_left' (length_pack _)

/-- Byte 10 of a frame is the high byte of a count of at most 128; a heartbeat has a
hyphen there. -/
theorem carrierFrame_ne_heartbeat (message index : Nat) {count : Nat} (part : Bytes)
    (few : count ≤ maxCarrierFragments) :
    carrierFrame message index count part ≠ carrierPing ∧
      carrierFrame message index count part ≠ carrierPong := by
  have high : (carrierFrame message index count part)[10]? = some 0 := by
    unfold maxCarrierFragments at few
    have small : count / 256 = 0 := by omega
    simp [carrierFrame, pack, toBeBytes, small]
  constructor
  · intro same
    rw [same] at high
    exact absurd high (by decide)
  · intro same
    rw [same] at high
    exact absurd high (by decide)

/-- A call that succeeds takes the next number and sends the parts of the payload. -/
theorem sendCarrier_ok {maximum : Option Nat} {payload : Bytes} {message next : Nat}
    {frames : List Bytes} (isSent : sendCarrier maximum payload message = (next, .ok frames)) :
    next = (message + 1) % 2 ^ 64 ∧
      ∃ size parts, maximum = some size ∧ Parts payload parts ∧ frames = framesOf next parts ∧
        parts.length = divCeil (max payload.length 1) (size - carrierHeader) := by
  unfold sendCarrier at isSent
  cases maximum with
  | none => cases isSent
  | some maximum =>
      dsimp only at isSent
      split at isSent
      next => cases isSent
      next large =>
        split at isSent
        next => cases isSent
        next few =>
          cases isSent
          refine ⟨rfl, ?_⟩
          cases payload with
          | nil =>
              have positive : 0 < maximum - carrierHeader := by omega
              refine ⟨maximum, [[]], rfl, ⟨by decide, by decide, rfl⟩, ?_,
                (divCeil_one positive).symm⟩
              have none_ : chunks (maximum - carrierHeader) ([] : Bytes) = [] := by
                apply List.eq_nil_of_length_eq_zero
                rw [length_chunks, divCeil]
                apply Nat.div_eq_of_lt
                simp
                omega
              rw [none_]
              rfl
          | cons head tail =>
              have nonempty : max (head :: tail).length 1 = (head :: tail).length :=
                Nat.max_eq_left (Nat.succ_pos _)
              rw [nonempty] at few ⊢
              have positive : 0 < maximum - carrierHeader := by omega
              refine ⟨maximum, chunks (maximum - carrierHeader) (head :: tail), rfl, ⟨?_, ?_, ?_⟩,
                ?_, length_chunks _ _⟩
              · rw [length_chunks, divCeil]
                apply Nat.div_pos _ positive
                simp
              · rw [length_chunks]
                omega
              · exact flatten_chunks positive _
              · unfold framesOf
                rw [length_chunks]
                exact List.append_nil _

/-- A payload that needs no more than 128 fragments is sent. -/
theorem sendCarrier_sends {size : Nat} (payload : Bytes) (message : Nat)
    (large : carrierHeader < size)
    (few : divCeil (max payload.length 1) (size - carrierHeader) ≤ maxCarrierFragments) :
    ∃ next frames, sendCarrier (some size) payload message = (next, .ok frames) := by
  unfold sendCarrier
  dsimp only
  rw [if_neg (Nat.not_le.mpr large), if_neg (Nat.not_lt.mpr few)]
  exact ⟨_, _, rfl⟩

/-- A failed call leaves the counter as it was. -/
theorem sendCarrier_error {maximum : Option Nat} {payload : Bytes} {message next : Nat}
    {error : SendError} (failed : sendCarrier maximum payload message = (next, .error error)) :
    next = message := by
  unfold sendCarrier at failed
  cases maximum with
  | none =>
      cases failed
      rfl
  | some maximum =>
      dsimp only at failed
      split at failed
      · cases failed
        rfl
      · split at failed
        · cases failed
          rfl
        · cases failed

end SmartFecTunnel.Relay
