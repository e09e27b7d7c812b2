import SmartFecTunnel.Library.Run
import SmartFecTunnel.Tunnel.Endpoint

/-!
Contract: one server session (`run_server_session` in `src/main.rs`).

The loop takes the address of a packet as the address to answer to before it
looks at the packet's frame.

Owns: which addresses the session sends to.  They are addresses of packets that
were accepted as new exactly as long as every other packet comes from such an
address.

Does not own: how packets get into the session's queue.
-/

namespace SmartFecTunnel.Tunnel

open SmartFecTunnel.Library
open SmartFecTunnel.Fec

structure SocketAddr where
  ip : Bytes
  port : UInt16
deriving DecidableEq, Repr

structure SessionPacket where
  frame : Frame
  peer : SocketAddr
deriving DecidableEq, Repr

/-- The identity of a session and the key of its device. -/
structure SessionRuntime where
  key : Bytes
  identity : Identity
deriving DecidableEq, Repr

structure Session where
  endpoint : Endpoint
  peer : Option SocketAddr

/-- What wakes the loop.  A failed receive from the upstream is `none`. -/
inductive SessionEvent where
  | packet (packet : SessionPacket) (host : Host)
  | upstream (received : Option Bytes)
  | reportTick
  | flushTick

inductive SessionOutput where
  | upstream (datagram : Bytes)
  | toPeer (peer : SocketAddr) (frame : Frame)
deriving DecidableEq, Repr

namespace Session

def start (runtime : SessionRuntime) (hook : Option Nat) : Session where
  endpoint := Endpoint.new runtime.identity hook
  peer := none

/-- `send_session_frames` before the frames are sealed. -/
def sendFrames (peer : SocketAddr) (frames : List Frame) : List SessionOutput :=
  frames.map (SessionOutput.toPeer peer)

/-- One round of the loop.  The arms other than `packet` wait for a peer. -/
def step (rs : ReedSolomon) (runtime : SessionRuntime) (session : Session) :
    SessionEvent → Option (Session × List SessionOutput)
  | .packet packet host =>
    (session.endpoint.receive rs host runtime.identity packet.frame).map fun result =>
      (⟨result.1, some packet.peer⟩, result.2.map SessionOutput.upstream)
  | .upstream received =>
    match session.peer, received with
    | some peer, some payload =>
      let result := session.endpoint.encodeDatagram rs payload
      some ({ session with endpoint := result.1 }, sendFrames peer (result.2.toOption.getD []))
    | _, _ => some (session, [])
  | .reportTick =>
    match session.peer with
    | some peer =>
      session.endpoint.report.map fun result =>
        ({ session with endpoint := result.1 }, sendFrames peer [result.2])
    | none => some (session, [])
  | .flushTick =>
    match session.peer with
    | some peer =>
      let result := session.endpoint.flush rs
      some ({ session with endpoint := result.1 }, sendFrames peer (result.2.toOption.getD []))
    | none => some (session, [])

/-! ### What one round does -/

/-- The answer address after an event. -/
def peerAfter (session : Session) : SessionEvent → Option SocketAddr
  | .packet packet _ => some packet.peer
  | _ => session.peer

theorem peer_of_sendFrames {session : Session} {peer : SocketAddr} {frames : List Frame}
    (isPeer : session.peer = some peer) (address : SocketAddr) (frame : Frame)
    (member : SessionOutput.toPeer address frame ∈ sendFrames peer frames) :
    session.peer = some address := by
  obtain ⟨sent, _, isOutput⟩ := List.mem_map.mp member
  cases isOutput
  exact isPeer

/-- What a round can be. -/
inductive Stepped (rs : ReedSolomon) (runtime : SessionRuntime) (session : Session) :
    SessionEvent → Session → List SessionOutput → Prop
  | packet {packet : SessionPacket} {host : Host} {endpoint : Endpoint} {given : List Bytes}
      (received : session.endpoint.receive rs host runtime.identity packet.frame =
        some (endpoint, given)) :
      Stepped rs runtime session (.packet packet host) ⟨endpoint, some packet.peer⟩
        (given.map SessionOutput.upstream)
  | upstream {payload : Bytes} {peer : SocketAddr} (isPeer : session.peer = some peer) :
      Stepped rs runtime session (.upstream (some payload))
        { session with endpoint := (session.endpoint.encodeDatagram rs payload).1 }
        (sendFrames peer ((session.endpoint.encodeDatagram rs payload).2.toOption.getD []))
  | report {endpoint : Endpoint} {frame : Frame} {peer : SocketAddr}
      (isPeer : session.peer = some peer)
      (reported : session.endpoint.report = some (endpoint, frame)) :
      Stepped rs runtime session .reportTick { session with endpoint } (sendFrames peer [frame])
  | flush {peer : SocketAddr} (isPeer : session.peer = some peer) :
      Stepped rs runtime session .flushTick
        { session with endpoint := (session.endpoint.flush rs).1 }
        (sendFrames peer ((session.endpoint.flush rs).2.toOption.getD []))
  /-- There is no peer, or nothing was received from the upstream. -/
  | idle {event : SessionEvent} (noPacket : ∀ packet host, event ≠ .packet packet host) :
      Stepped rs runtime session event session []

theorem step_cases {rs : ReedSolomon} {runtime : SessionRuntime} {session next : Session}
    {event : SessionEvent} {outputs : List SessionOutput}
    (isStep : session.step rs runtime event = some (next, outputs)) :
    Stepped rs runtime session event next outputs := by
  cases event with
  | packet packet host =>
      obtain ⟨result, received, isNext⟩ := Option.map_eq_some_iff.mp isStep
      cases isNext
      exact .packet received
  | upstream received =>
      unfold step at isStep
      dsimp only at isStep
      split at isStep
      next peer payload isPeer =>
        cases isStep
        exact .upstream isPeer
      next =>
        cases isStep
        exact .idle fun _ _ => nofun
  | reportTick =>
      unfold step at isStep
      dsimp only at isStep
      split at isStep
      next peer isPeer =>
        obtain ⟨result, reported, isNext⟩ := Option.map_eq_some_iff.mp isStep
        cases isNext
        exact .report isPeer reported
      next =>
        cases isStep
        exact .idle fun _ _ => nofun
  | flushTick =>
      unfold step at isStep
      dsimp only at isStep
      split at isStep
      next peer isPeer =>
        cases isStep
        exact .flush isPeer
      next =>
        cases isStep
        exact .idle fun _ _ => nofun

/-- Frames go to the answer address, and only a packet changes it. -/
theorem step_peer {rs : ReedSolomon} {runtime : SessionRuntime} {session next : Session}
    {event : SessionEvent} {outputs : List SessionOutput}
    (stepped : session.step rs runtime event = some (next, outputs)) :
    next.peer = session.peerAfter event ∧
      ∀ address frame, SessionOutput.toPeer address frame ∈ outputs →
        session.peer = some address := by
  cases step_cases stepped with
  | packet received =>
      refine ⟨rfl, ?_⟩
      intro address frame member
      obtain ⟨datagram, _, isOutput⟩ := List.mem_map.mp member
      cases isOutput
  | upstream isPeer => exact ⟨rfl, peer_of_sendFrames isPeer⟩
  | report isPeer reported => exact ⟨rfl, peer_of_sendFrames isPeer⟩
  | flush isPeer => exact ⟨rfl, peer_of_sendFrames isPeer⟩
  | idle noPacket =>
      refine ⟨?_, fun address frame member => absurd member List.not_mem_nil⟩
      cases event with
      | packet packet host => exact absurd rfl (noPacket packet host)
      | _ => rfl

/-! ### The return path -/

/-- The packet belongs to this session and `observe_seq` accepts it as new. -/
def Accepts (runtime : SessionRuntime) (session : Session) (packet : SessionPacket) : Prop :=
  runtime.identity.Owns packet.frame ∧
    (session.endpoint.decoder.observeSeq packet.frame.sequence).2 = true

instance (runtime : SessionRuntime) (session : Session) (packet : SessionPacket) :
    Decidable (session.Accepts runtime packet) :=
  inferInstanceAs (Decidable (_ ∧ _))

/-- What happens in a round: a packet is accepted as new, and outputs follow. -/
inductive Occurrence where
  | accepted (address : SocketAddr)
  | output (output : SessionOutput)
deriving DecidableEq, Repr

/-- The acceptance of an event. -/
def acceptance (runtime : SessionRuntime) (session : Session) : SessionEvent → List Occurrence
  | .packet packet _ =>
    if session.Accepts runtime packet then [.accepted packet.peer] else []
  | _ => []

/-- `step` with everything that happens in it. -/
def traced (rs : ReedSolomon) (runtime : SessionRuntime) (session : Session)
    (event : SessionEvent) : Option (Session × List Occurrence) :=
  (session.step rs runtime event).map fun result =>
    (result.1, session.acceptance runtime event ++ result.2.map Occurrence.output)

/-- Every frame goes to the source of a packet accepted earlier. -/
def SendsToFresh (trace : List Occurrence) : Prop :=
  ∀ before address frame after,
    trace = before ++ .output (.toPeer address frame) :: after → .accepted address ∈ before

/-- The answer address is the source of a packet accepted earlier. -/
def PeerFresh (session : Session) (trace : List Occurrence) : Prop :=
  ∀ address, session.peer = some address → .accepted address ∈ trace

/-- Every packet of the run is accepted as new, or comes from an address from
which an earlier packet was. -/
def Guarded (rs : ReedSolomon) (runtime : SessionRuntime) (hook : Option Nat)
    (events : List SessionEvent) : Prop :=
  ∀ front packet host session trace, front ++ [.packet packet host] <+: events →
    run (traced rs runtime) (start runtime hook) front = some (session, trace) →
    session.Accepts runtime packet ∨ .accepted packet.peer ∈ trace

theorem SendsToFresh.append {front back : List Occurrence} (sends : SendsToFresh front)
    (later : ∀ address frame, .output (.toPeer address frame) ∈ back → .accepted address ∈ front) :
    SendsToFresh (front ++ back) := by
  intro before address frame after isTrace
  rcases List.append_eq_append_iff.mp isTrace with ⟨more, isBefore, isBack⟩ | ⟨more, isFront, isRest⟩
  · rw [isBefore]
    apply List.mem_append_left
    apply later address frame
    rw [isBack]
    exact List.mem_append_right _ List.mem_cons_self
  · cases more with
    | nil =>
        rw [List.append_nil] at isFront
        rw [← isFront]
        apply later address frame
        rw [List.nil_append] at isRest
        rw [← isRest]
        exact List.mem_cons_self
    | cons first rest =>
        rw [List.cons_append] at isRest
        rw [← (List.cons.inj isRest).1] at isFront
        exact sends before address frame rest isFront

/-- One round from a fresh answer address, with a guarded packet. -/
theorem traced_fresh {rs : ReedSolomon} {runtime : SessionRuntime} {session next : Session}
    {event : SessionEvent} {trace emitted : List Occurrence}
    (stepped : session.traced rs runtime event = some (next, emitted))
    (guarded : ∀ packet host, event = .packet packet host →
      session.Accepts runtime packet ∨ .accepted packet.peer ∈ trace)
    (peerFresh : session.PeerFresh trace) (sends : SendsToFresh trace) :
    next.PeerFresh (trace ++ emitted) ∧ SendsToFresh (trace ++ emitted) := by
  obtain ⟨⟨after, outputs⟩, isStep, isNext⟩ := Option.map_eq_some_iff.mp stepped
  cases isNext
  obtain ⟨isPeer, toPeer⟩ := step_peer isStep
  constructor
  · intro address isAddress
    rw [isPeer] at isAddress
    cases event with
    | packet packet host =>
        cases isAddress
        rcases guarded packet host rfl with accepts | earlier
        · refine List.mem_append_right _ (List.mem_append_left _ ?_)
          rw [acceptance, if_pos accepts]
          exact List.mem_singleton_self _
        · exact List.mem_append_left _ earlier
    | upstream received => exact List.mem_append_left _ (peerFresh address isAddress)
    | reportTick => exact List.mem_append_left _ (peerFresh address isAddress)
    | flushTick => exact List.mem_append_left _ (peerFresh address isAddress)
  · apply sends.append
    intro address frame member
    rcases List.mem_append.mp member with inAcceptance | inOutputs
    · cases event with
      | packet packet host =>
          rw [acceptance] at inAcceptance
          split at inAcceptance
          · cases List.mem_singleton.mp inAcceptance
          · cases inAcceptance
      | upstream received => cases inAcceptance
      | reportTick => cases inAcceptance
      | flushTick => cases inAcceptance
    · obtain ⟨output, isOutput, same⟩ := List.mem_map.mp inOutputs
      cases same
      exact peerFresh address (toPeer address frame isOutput)

/-- A packet makes its source the answer address, so a fresh answer address
afterwards means that the packet was accepted or its source known. -/
theorem guarded_of_fresh {rs : ReedSolomon} {runtime : SessionRuntime} {session next : Session}
    {packet : SessionPacket} {host : Host} {trace emitted : List Occurrence}
    (stepped : session.traced rs runtime (.packet packet host) = some (next, emitted))
    (peerFresh : next.PeerFresh (trace ++ emitted)) :
    session.Accepts runtime packet ∨ .accepted packet.peer ∈ trace := by
  obtain ⟨⟨after, outputs⟩, isStep, isNext⟩ := Option.map_eq_some_iff.mp stepped
  cases isNext
  obtain ⟨isPeer, _⟩ := step_peer isStep
  rcases List.mem_append.mp (peerFresh packet.peer isPeer) with earlier | now
  · exact Or.inr earlier
  · rcases List.mem_append.mp now with inAcceptance | inOutputs
    · left
      by_contra refused
      rw [acceptance, if_neg refused] at inAcceptance
      cases inAcceptance
    · obtain ⟨output, _, same⟩ := List.mem_map.mp inOutputs
      cases same

/-- In every part of a run the answer address is that of a packet accepted
earlier, and every frame went to such an address, exactly when each packet is
accepted as new or comes from such an address. -/
theorem return_path_fresh_iff (rs : ReedSolomon) (runtime : SessionRuntime) (hook : Option Nat)
    (events : List SessionEvent) (last : Session) (whole : List Occurrence)
    (ran : run (traced rs runtime) (start runtime hook) events = some (last, whole)) :
    (∀ front session trace, front <+: events →
      run (traced rs runtime) (start runtime hook) front = some (session, trace) →
      session.PeerFresh trace ∧ SendsToFresh trace) ↔ Guarded rs runtime hook events := by
  constructor
  · intro always front packet host session trace isPrefix ranFront
    obtain ⟨next, after, ranNext⟩ := run_of_prefix isPrefix ran
    obtain ⟨state, before, emitted, ranState, stepped, rfl⟩ := run_snoc_inv ranNext
    rw [ranFront] at ranState
    cases ranState
    exact guarded_of_fresh stepped (always _ next _ isPrefix ranNext).1
  · intro guarded front session trace isPrefix ranFront
    refine run_invariant ranFront
      (fun _ trace session => session.PeerFresh trace ∧ SendsToFresh trace) ?_ ?_
    · constructor
      · intro address isPeer
        cases isPeer
      · intro before address frame after isTrace
        exact absurd isTrace.symm (List.append_ne_nil_of_right_ne_nil _ (List.cons_ne_nil _ _))
    · rintro past event before state next emitted within ranPast stepped ⟨peerFresh, sends⟩
      refine traced_fresh stepped ?_ peerFresh sends
      rintro packet host rfl
      exact guarded past packet host state before (within.trans isPrefix) ranPast

/-! ### A replayed report -/

def sampleRuntime : SessionRuntime where
  key := List.replicate 32 5
  identity := ⟨versionV3, 7, 91⟩

/-- The first report of the client. -/
def sampleReport : Frame where
  version := versionV3
  keyId := 7
  kind := kindReport
  session := 91
  sequence := 1
  group := 0
  index := 0
  data := 0
  parity := 0
  payload := [0, 0, 0, 0]

def clientAddress : SocketAddr := ⟨[192, 0, 2, 1], 4000⟩
def strangerAddress : SocketAddr := ⟨[198, 51, 100, 9], 5000⟩

/-- The client's report arrives, then the session sends its own. -/
theorem return_path_fresh_one_client :
    ∃ session trace,
      run (traced ReedSolomon.standard sampleRuntime) (start sampleRuntime none)
        [.packet ⟨sampleReport, clientAddress⟩ (Host.at 0), .reportTick] = some (session, trace) ∧
      session.PeerFresh trace ∧ SendsToFresh trace := by
  refine ⟨_, _, rfl, ?_⟩
  refine (return_path_fresh_iff ReedSolomon.standard sampleRuntime none
    [.packet ⟨sampleReport, clientAddress⟩ (Host.at 0), .reportTick] _ _ rfl).mpr ?_ _ _ _
    List.prefix_rfl rfl
  intro front packet host session trace isPrefix ranFront
  obtain ⟨back, isEvents⟩ := isPrefix
  cases front with
  | nil =>
      cases isEvents
      cases ranFront
      exact Or.inl (by decide)
  | cons first rest =>
      cases rest with
      | nil => cases isEvents
      | cons second more =>
          have tooLong := congrArg List.length isEvents
          simp at tooLong

/-- A copy of the client's report from another address turns the session's own
report to that address. -/
theorem report_sent_to_stranger :
    ∃ session trace,
      run (traced ReedSolomon.standard sampleRuntime) (start sampleRuntime none)
        [.packet ⟨sampleReport, clientAddress⟩ (Host.at 0),
          .packet ⟨sampleReport, strangerAddress⟩ (Host.at 1), .reportTick] =
          some (session, trace) ∧
      ¬ session.PeerFresh trace ∧ ¬ SendsToFresh trace := by
  refine ⟨_, _, rfl, ?_, ?_⟩
  · intro peerFresh
    have accepted := peerFresh strangerAddress rfl
    revert accepted
    decide
  · intro sends
    have accepted := sends [.accepted clientAddress] strangerAddress
      { sampleReport with payload := [255, 255, 255, 255] } [] rfl
    revert accepted
    decide

end Session

end SmartFecTunnel.Tunnel
