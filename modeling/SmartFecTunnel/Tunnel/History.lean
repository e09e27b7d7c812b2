import SmartFecTunnel.Fec.HonestReceiver
import SmartFecTunnel.Tunnel.Endpoint
import SmartFecTunnel.Wire.Codec

/-!
Contract: what an endpoint has done since it was created.

`History` lists the datagrams an endpoint passed to its encoder, the frames it
emitted, the frames it took in and the datagrams its decoder gave out.  Every
operation of an endpoint extends it.

Owns:
- that frames of an encoder whose counters have not wrapped fit the wire;
- that an endpoint which took in frames of one other endpoint only gave out
  datagrams that the other one passed to its encoder.
-/

namespace SmartFecTunnel.Tunnel

open SmartFecTunnel.Library
open SmartFecTunnel.Fec
open SmartFecTunnel.Fec.Encoder

/-! ### Frames of an encoder fit the wire -/

/-- The fields of an emitted frame that do not count anything. -/
structure Compact (frame : Frame) : Prop where
  kind : frame.kind < 256 ^ 1
  index : frame.index < 256 ^ 2
  data : frame.data < 256 ^ 1
  parity : frame.parity < 256 ^ 1
  report : frame.kind = kindReport → frame.group = 0 ∧ frame.payload.length = 4

theorem compact_of_mem_shardFrames {encoder : Encoder} {kind data parity first : Nat}
    {shards : List Bytes} (small : kind < 256 ^ 1) (isShard : kind ≠ kindReport) {frame : Frame}
    (member : frame ∈ encoder.shardFrames kind data parity first shards) : Compact frame := by
  obtain ⟨entry, _, rfl⟩ := List.mem_map.mp member
  exact ⟨small, Nat.mod_lt _ (by decide), Nat.mod_lt _ (by decide), Nat.mod_lt _ (by decide),
    fun report => absurd report isShard⟩

theorem flush_compact (rs : ReedSolomon) (encoder : Encoder) {frames : List Frame}
    (flushed : (encoder.flush rs).2 = .ok frames) : ∀ frame ∈ frames, Compact frame := by
  unfold flush at flushed
  dsimp only at flushed
  intro frame member
  split at flushed
  · cases flushed
    cases member
  · split at flushed
    · split at flushed
      · cases flushed
      · split at flushed
        · cases flushed
        · cases flushed
          rcases List.mem_append.mp member with inData | inParity
          · exact compact_of_mem_shardFrames (by decide) (by decide) inData
          · exact compact_of_mem_shardFrames (by decide) (by decide) inParity
    · cases flushed
      exact compact_of_mem_shardFrames (by decide) (by decide) member

theorem pushChunks_compact (rs : ReedSolomon) (packetId count index : Nat) (rest : List Bytes)
    (encoder : Encoder) {frames emitted : List Frame} (compact : ∀ frame ∈ frames, Compact frame)
    (pushed : (pushChunks rs packetId count index rest encoder frames).2 = .ok emitted) :
    ∀ frame ∈ emitted, Compact frame := by
  induction rest generalizing index encoder frames with
  | nil =>
      cases pushed
      exact compact
  | cons chunk rest inductionHypothesis =>
      rw [pushChunks] at pushed
      dsimp only at pushed
      split at pushed
      · split at pushed
        next flushed more isFlushed =>
          have moreCompact := flush_compact rs _ (congrArg Prod.snd isFlushed)
          refine inductionHypothesis _ _ ?_ pushed
          intro frame member
          rcases List.mem_append.mp member with old | new
          · exact compact frame old
          · exact moreCompact frame new
        next => cases pushed
      · exact inductionHypothesis _ _ compact pushed

theorem call_compact (rs : ReedSolomon) (encoder : Encoder) (call : Encoder.Call) :
    ∀ frame ∈ (encoder.call rs call).2, Compact frame := by
  cases call with
  | encodeDatagram payload =>
      unfold Encoder.call encodeDatagram
      dsimp only
      split
      · intro frame member
        cases member
      · generalize isPushed : (pushChunks rs encoder.packet
          (divCeil (max payload.length 1) chunkBytes) 0 (datagramChunks payload)
          { encoder with packet := encoder.packet + 1 } []).2 = result
        cases result with
        | error error =>
            intro frame member
            cases member
        | ok frames =>
            exact pushChunks_compact rs _ _ _ _ _
              (fun frame member => absurd member List.not_mem_nil) isPushed
  | flush =>
      unfold Encoder.call
      dsimp only
      generalize isFlushed : (encoder.flush rs).2 = result
      cases result with
      | error error =>
          intro frame member
          cases member
      | ok frames => exact flush_compact rs encoder isFlushed
  | reportFrame lossPpm =>
      intro frame member
      cases List.mem_singleton.mp member
      have kind : kindReport < 256 ^ 1 := by decide
      exact ⟨kind, Nat.zero_lt_succ _, Nat.zero_lt_succ _, Nat.zero_lt_succ _,
        fun _ => ⟨rfl, length_toBeBytes 4 lossPpm⟩⟩
  | adaptiveReport loss =>
      intro frame member
      cases member

theorem calls_compact {rs : ReedSolomon} {start encoder : Encoder} {calls : List Encoder.Call}
    {frames : List Frame} (ran : start.calls rs calls = some (encoder, frames)) :
    ∀ frame ∈ frames, Compact frame := by
  refine run_invariant ran (fun _ frames _ => ∀ frame ∈ frames, Compact frame) ?_ ?_
  · intro frame member
    cases member
  · intro past call before state next emitted _ _ stepped compact frame member
    have isEmitted : emitted = (state.call rs call).2 :=
      (congrArg Prod.snd (Option.some.inj stepped)).symm
    rw [isEmitted] at member
    rcases List.mem_append.mp member with old | new
    · exact compact frame old
    · exact call_compact rs state call frame new

/-- Every frame of an encoder whose counters have not wrapped fits the wire. -/
theorem fits_of_calls {rs : ReedSolomon} {session version keyId : Nat} {hook : Option Nat}
    {calls : List Encoder.Call} {encoder : Encoder} {frames : List Frame}
    (small : ∀ payload ∈ Encoder.datagrams calls, payload.length ≤ maxDatagram)
    (ran : (withIdentity session version keyId hook).calls rs calls = some (encoder, frames))
    (fits : encoder.CountersFit) (sessionFits : session < 2 ^ 64) :
    ∀ frame ∈ frames, Wire.Fits frame := by
  intro frame member
  have compact := calls_compact ran frame member
  obtain ⟨log, settled, _, _, rfl, identity⟩ := SenderLog.of_calls small ran fits
  have counted : frame.sequence ∈ log.frames.map Frame.sequence := List.mem_map_of_mem member
  rw [settled.sequences, List.mem_range'_1] at counted
  have isSequence := settled.sequence
  have isGroup := settled.group
  have sequenceFits := fits.sequence
  have groupFits := fits.group
  have isSession : frame.session = session :=
    (settled.identity frame member).1.trans identity.session
  have rest : frame.group < 256 ^ 8 ∧ frame.payload.length < 256 ^ 2 := by
    rcases settled.described frame member with report | ⟨sent, describes⟩
    · obtain ⟨group, payload⟩ := compact.report report
      rw [group, payload]
      decide
    · have within := (List.getElem?_eq_some_iff.mp describes.isGroup).1
      have size := (Decoder.admissible_of_describes settled.toExplains describes).2.2.2.2.2
      unfold shardBytes at size
      omega
  refine ⟨compact.kind, ?_, ?_, rest.1, compact.index, compact.data, compact.parity, rest.2⟩
  · rw [isSession]
    exact sessionFits
  · omega

/-! ### History -/

/-- The datagrams passed to the encoder, the frames emitted, the frames taken in
and the datagrams given out. -/
structure Ledger where
  passed : List Bytes
  emitted : List Frame
  taken : List Frame
  given : List Bytes

def Ledger.empty : Ledger := ⟨[], [], [], []⟩

structure History (rs : ReedSolomon) (identity : Identity) (hook : Option Nat) (ledger : Ledger)
    (endpoint : Endpoint) : Prop where
  encoder : ∃ calls,
    (withIdentity identity.session identity.version identity.keyId hook).calls rs calls =
      some (endpoint.encoder, ledger.emitted) ∧ Encoder.datagrams calls = ledger.passed
  small : ∀ payload ∈ ledger.passed, payload.length ≤ maxDatagram
  decoder : ∃ calls, run (Decoder.call rs) (Decoder.new identity.session) calls =
      some (endpoint.decoder, ledger.given) ∧
    ∀ frame host, Decoder.Call.frame frame host ∈ calls → frame ∈ ledger.taken
  session : endpoint.decoder.session = identity.session

namespace History

variable {rs : ReedSolomon} {identity : Identity} {hook : Option Nat} {ledger : Ledger}
  {endpoint : Endpoint}

theorem new (rs : ReedSolomon) (identity : Identity) (hook : Option Nat) :
    History rs identity hook Ledger.empty (Endpoint.new identity hook) where
  encoder := ⟨[], rfl, rfl⟩
  small := by intro payload member; cases member
  decoder := ⟨[], rfl, by intro frame host member; cases member⟩
  session := rfl

/-- One more call on the encoder. -/
theorem encode (history : History rs identity hook ledger endpoint) (call : Encoder.Call)
    (small : ∀ payload, call.datagram = some payload → payload.length ≤ maxDatagram) :
    History rs identity hook
      { ledger with
        passed := ledger.passed ++ call.datagram.toList
        emitted := ledger.emitted ++ (endpoint.encoder.call rs call).2 }
      { endpoint with encoder := (endpoint.encoder.call rs call).1 } where
  encoder := by
    obtain ⟨calls, ran, passed⟩ := history.encoder
    refine ⟨calls ++ [call], run_snoc ran rfl, ?_⟩
    unfold Encoder.datagrams at passed ⊢
    rw [List.filterMap_append, passed]
    cases call <;> rfl
  small := by
    intro payload member
    rcases List.mem_append.mp member with old | new
    · exact history.small payload old
    · exact small payload (Option.mem_toList.mp new)
  decoder := history.decoder
  session := history.session

/-- One more call on the decoder. -/
theorem decode (history : History rs identity hook ledger endpoint) {call : Decoder.Call}
    {taken : List Frame} {decoder : Decoder} {given : List Bytes}
    (called : endpoint.decoder.call rs call = some (decoder, given))
    (isTaken : ∀ frame host, call = .frame frame host → frame ∈ taken)
    (session : decoder.session = endpoint.decoder.session) :
    History rs identity hook
      { ledger with taken := ledger.taken ++ taken, given := ledger.given ++ given }
      { endpoint with decoder } where
  encoder := history.encoder
  small := history.small
  decoder := by
    obtain ⟨calls, ran, drawn⟩ := history.decoder
    refine ⟨calls ++ [call], run_snoc ran called, ?_⟩
    intro frame host member
    rcases List.mem_append.mp member with old | new
    · exact List.mem_append_left _ (drawn frame host old)
    · exact List.mem_append_right _ (isTaken frame host (List.mem_singleton.mp new).symm)
  session := session.trans history.session

/-- A frame of the own identity, be it a loss report or not, is one call of
`Decoder::frame`. -/
theorem accept (history : History rs identity hook ledger endpoint) {host : Host} {frame : Frame}
    {next : Endpoint} {given : List Bytes} (owns : identity.Owns frame)
    (accepted : endpoint.accept rs host frame = some (next, given)) :
    History rs identity hook
      { ledger with taken := ledger.taken ++ [frame], given := ledger.given ++ given } next := by
  have isTaken : ∀ other otherHost, Decoder.Call.frame frame host = .frame other otherHost →
      other ∈ [frame] := by
    intro other otherHost same
    cases same
    exact List.mem_singleton_self _
  unfold Endpoint.accept at accepted
  split at accepted
  next isReport =>
    have stores := Decoder.observeSeq_sameStores endpoint.decoder frame.sequence
    have called : endpoint.decoder.call rs (.frame frame host) =
        some ((endpoint.decoder.observeSeq frame.sequence).1, []) := by
      have sameSession : endpoint.decoder.session = frame.session :=
        history.session.trans owns.2.2.symm
      unfold Decoder.call Decoder.frame
      simp only [sameSession, ne_eq, not_true_eq_false, ↓reduceIte, isReport.1]
      split <;> rfl
    have observed := history.decode called isTaken stores.session
    dsimp only at accepted
    split at accepted
    next =>
      cases accepted
      have reported := observed.encode (.adaptiveReport (fromBeBytes (frame.payload.take 4)))
        (fun payload impossible => by cases impossible)
      simpa [Encoder.call, Encoder.Call.datagram] using reported
    next =>
      cases accepted
      exact observed
  next =>
    obtain ⟨result, decoded, isNext⟩ := Option.map_eq_some_iff.mp accepted
    cases isNext
    exact history.decode (by simp [Decoder.call, decoded]) isTaken (Decoder.frame_session decoded)

/-- The periodic report reads the sequence window and emits one frame. -/
theorem report (history : History rs identity hook ledger endpoint) {next : Endpoint} {frame : Frame}
    (reported : endpoint.report = some (next, frame)) :
    History rs identity hook { ledger with emitted := ledger.emitted ++ [frame] } next := by
  obtain ⟨⟨decoder, sample⟩, isSample, isNext⟩ := Option.map_eq_some_iff.mp reported
  cases isNext
  have called : endpoint.decoder.call rs .sequenceReport = some (decoder, []) := by
    simp [Decoder.call, isSample]
  have nothing : ∀ frame host, Decoder.Call.sequenceReport = .frame frame host →
      frame ∈ ([] : List Frame) := by
    intro frame host impossible
    cases impossible
  have sampled := history.decode called nothing (Decoder.sequenceReport_sameStores isSample).session
  have emitted := sampled.encode (.reportFrame (Endpoint.lossOf sample))
    (fun payload impossible => by cases impossible)
  simpa [Encoder.call, Encoder.Call.datagram] using emitted

/-- An endpoint that took in frames of `sender` only gave out datagrams that
`sender` passed to its encoder. -/
theorem given_passed {senderHook : Option Nat} {senderLedger : Ledger} {sender : Endpoint}
    (history : History rs identity hook ledger endpoint)
    (senderHistory : History rs identity senderHook senderLedger sender)
    (fits : sender.encoder.CountersFit)
    (drawn : ∀ frame ∈ ledger.taken, frame ∈ senderLedger.emitted) :
    ∀ datagram ∈ ledger.given, datagram ∈ senderLedger.passed := by
  obtain ⟨sent, ran, passed⟩ := senderHistory.encoder
  obtain ⟨received, decoded, taken⟩ := history.decoder
  have small := senderHistory.small
  rw [← passed] at small
  obtain ⟨log, settled, logFits, datagrams, isFrames, sameIdentity⟩ :=
    SenderLog.of_calls small ran fits
  obtain ⟨decoder, outputs, isRun, sound⟩ := Decoder.honest_run settled.toExplains logFits
    (fun frame host member => isFrames ▸ drawn frame (taken frame host member))
  have isSession : sender.encoder.session = identity.session := sameIdentity.session
  rw [isSession, decoded] at isRun
  cases isRun
  rw [datagrams, passed] at sound
  exact sound

/-- The frames an endpoint emitted carry its identity and fit the wire. -/
theorem emitted_fits (history : History rs identity hook ledger endpoint)
    (fits : endpoint.encoder.CountersFit) (sessionFits : identity.session < 2 ^ 64) :
    ∀ frame ∈ ledger.emitted, identity.Owns frame ∧ Wire.Fits frame := by
  obtain ⟨sent, ran, passed⟩ := history.encoder
  have small := history.small
  rw [← passed] at small
  intro frame member
  refine ⟨?_, fits_of_calls small ran fits sessionFits frame member⟩
  obtain ⟨log, settled, _, _, isFrames, same⟩ := SenderLog.of_calls small ran fits
  obtain ⟨session, version, keyId⟩ := settled.identity frame (isFrames ▸ member)
  exact ⟨version.trans same.version, keyId.trans same.keyId, session.trans same.session⟩

end History

end SmartFecTunnel.Tunnel
