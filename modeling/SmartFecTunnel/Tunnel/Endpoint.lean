import SmartFecTunnel.Fec.Decoder

/-!
Contract: the state that the client loop and a server session share (`client` and
`run_server_session` in `src/main.rs`).

Both keep an encoder and a decoder of one identity, refuse frames of another
identity, give a new loss report to the controller and every other frame to the
decoder, and send a report of their own every two seconds.

Does not own: sockets, addresses and the wire format.
-/

namespace SmartFecTunnel.Tunnel

open SmartFecTunnel.Library
open SmartFecTunnel.Fec

/-- What a frame must carry to belong to a session. -/
structure Identity where
  version : Nat
  keyId : Nat
  session : Nat
deriving DecidableEq, Repr

/-- The frame belongs to this session. -/
def Identity.Owns (identity : Identity) (frame : Frame) : Prop :=
  frame.version = identity.version ∧ frame.keyId = identity.keyId ∧
    frame.session = identity.session

instance (identity : Identity) (frame : Frame) : Decidable (identity.Owns frame) :=
  inferInstanceAs (Decidable (_ ∧ _ ∧ _))

/-- The length of the buffers for datagrams that enter the tunnel.  A longer one
is cut by the socket. -/
def datagramBuffer : Nat := 65535

/-- The length of the buffers for datagrams of the tunnel itself. -/
def netBuffer : Nat := 2048

structure Endpoint where
  encoder : Encoder
  decoder : Decoder

namespace Endpoint

/-- Fresh state.  `hook` is the test hook of the encoder. -/
def new (identity : Identity) (hook : Option Nat) : Endpoint where
  encoder := Encoder.withIdentity identity.session identity.version identity.keyId hook
  decoder := Decoder.new identity.session

/-- A loss report that the controller understands. -/
def IsLossReport (frame : Frame) : Prop := frame.kind = kindReport ∧ frame.payload.length = 4

instance (frame : Frame) : Decidable (IsLossReport frame) := inferInstanceAs (Decidable (_ ∧ _))

/-- A frame of the own identity: a loss report is used once, everything else goes
to the decoder.  The result lists the datagrams that leave the tunnel. -/
def accept (rs : ReedSolomon) (host : Host) (endpoint : Endpoint) (frame : Frame) :
    Option (Endpoint × List Bytes) :=
  if IsLossReport frame then
    let (decoder, fresh) := endpoint.decoder.observeSeq frame.sequence
    if fresh then
      let loss := fromBeBytes (frame.payload.take 4)
      let adaptive := endpoint.encoder.adaptive.report loss
      some (⟨{ endpoint.encoder with adaptive }, decoder⟩, [])
    else some ({ endpoint with decoder }, [])
  else
    -- A frame the decoder refuses is only logged.
    (endpoint.decoder.frame rs host frame).map fun result =>
      ({ endpoint with decoder := result.1 }, result.2.toOption.getD [])

/-- `accept` behind the identity check. -/
def receive (rs : ReedSolomon) (host : Host) (identity : Identity) (endpoint : Endpoint)
    (frame : Frame) : Option (Endpoint × List Bytes) :=
  if identity.Owns frame then endpoint.accept rs host frame else some (endpoint, [])

/-- A datagram that enters the tunnel. -/
def encodeDatagram (rs : ReedSolomon) (endpoint : Endpoint) (payload : Bytes) :
    Endpoint × Except EncodeError (List Frame) :=
  let result := endpoint.encoder.encodeDatagram rs (payload.take datagramBuffer)
  ({ endpoint with encoder := result.1 }, result.2)

def flush (rs : ReedSolomon) (endpoint : Endpoint) : Endpoint × Except EncodeError (List Frame) :=
  let result := endpoint.encoder.flush rs
  ({ endpoint with encoder := result.1 }, result.2)

/-- The loss figure of a report, or the reserved value without a sample. -/
def lossOf (report : Option SequenceReport) : Nat :=
  report.elim lossSampleUnavailable SequenceReport.sequenceGapPpm

/-- The periodic report to the other end. -/
def report (endpoint : Endpoint) : Option (Endpoint × Frame) :=
  endpoint.decoder.sequenceReport.map fun sample =>
    let result := endpoint.encoder.reportFrame (lossOf sample.2)
    (⟨result.1, sample.1⟩, result.2)

end Endpoint

end SmartFecTunnel.Tunnel
