import SmartFecTunnel.Library.Run
import SmartFecTunnel.Relay.LanedSession

/-!
Contract: what the lanes do in any run, whatever the order of the events.

`LaneHolds` says what is on the stream of a lane: a front that belongs to its set-up, whole
datagrams, and at the end of a stream whose writer failed a part of one.

Owns:
- every lane gives its datagrams in order, each once; with one lane the carrier is a queue;
- what the client takes before any local packet is discarded, and everything later goes to
  the last local peer;
- neither a preface nor a length is ever misread.

Does not own: which datagrams arrive.
-/

namespace SmartFecTunnel.Relay

open SmartFecTunnel.Library

/-! ### One lane -/

/-- A part of a datagram that is not the whole. -/
def IsCut (cut : Bytes) : Prop :=
  ∃ payload, payload.length ≤ maxDatagram ∧ cut <+: laneFrame payload ∧ cut ≠ laneFrame payload

/-- The stream of a lane: `owed` are the payloads that were written to it, `read` those that
were read; `whole` says that the writer has not failed. -/
structure LaneHolds (front stream : Bytes) (whole : Prop) (owed read rest : List Bytes)
    (cut : Bytes) : Prop where
  isStream : stream = front ++ (rest.flatMap laneFrame ++ cut)
  isCut : IsCut cut
  fits : ∀ payload ∈ rest, payload.length ≤ maxDatagram
  inOrder : read ++ rest <+: owed
  complete : whole → cut = [] ∧ read ++ rest = owed

theorem isCut_nil : IsCut [] := by
  refine ⟨[], Nat.zero_le _, List.nil_prefix, ?_⟩
  intro same
  have length := congrArg List.length same
  rw [length_laneFrame] at length
  cases length

theorem isCut_take {payload : Bytes} (fits : payload.length ≤ maxDatagram) {count : Nat}
    (short : count < (laneFrame payload).length) : IsCut ((laneFrame payload).take count) := by
  refine ⟨payload, fits, List.take_prefix _ _, ?_⟩
  intro same
  have length := congrArg List.length same
  rw [List.length_take] at length
  omega

theorem IsCut.read {cut : Bytes} (isCut : IsCut cut) (ended : StreamEnd) :
    ∃ error, (readStreamDatagram ended cut).result = .error (.readExact error) := by
  obtain ⟨payload, fits, isPrefix, different⟩ := isCut
  exact readStreamDatagram_cut ended fits isPrefix different

namespace LaneHolds

variable {front stream : Bytes} {whole : Prop} {owed read rest : List Bytes} {cut : Bytes}

/-- Nothing has been written but the front. -/
theorem new (front : Bytes) (whole : Prop) : LaneHolds front front whole [] [] [] [] where
  isStream := by simp
  isCut := isCut_nil
  fits := by simp
  inOrder := List.prefix_rfl
  complete := fun _ => ⟨rfl, rfl⟩

/-- A datagram is written. -/
theorem write (holds : LaneHolds front stream whole owed read rest cut) (isWhole : whole)
    {payload : Bytes} (fits : payload.length ≤ maxDatagram) :
    LaneHolds front (stream ++ laneFrame payload) whole (owed ++ [payload]) read
      (rest ++ [payload]) [] := by
  obtain ⟨noCut, isOwed⟩ := holds.complete isWhole
  have isOwed : read ++ (rest ++ [payload]) = owed ++ [payload] := by
    rw [← List.append_assoc, isOwed]
  refine ⟨?_, isCut_nil, ?_, isOwed ▸ List.prefix_rfl, fun _ => ⟨rfl, isOwed⟩⟩
  · rw [holds.isStream, noCut]
    simp
  · intro other member
    rcases List.mem_append.mp member with old | new
    · exact holds.fits other old
    · rw [List.mem_singleton.mp new]
      exact fits

/-- The writer fails within a datagram. -/
theorem fail (holds : LaneHolds front stream whole owed read rest cut) (isWhole : whole)
    {payload : Bytes} (fits : payload.length ≤ maxDatagram) {count : Nat}
    (short : count < (laneFrame payload).length) :
    LaneHolds front (stream ++ (laneFrame payload).take count) False (owed ++ [payload]) read rest
      ((laneFrame payload).take count) where
  isStream := by
    rw [holds.isStream, (holds.complete isWhole).1]
    simp
  isCut := isCut_take fits short
  fits := holds.fits
  inOrder := holds.inOrder.trans (List.prefix_append _ _)
  complete := False.elim

/-- The writer is gone. -/
theorem gone (holds : LaneHolds front stream whole owed read rest cut) {other : Prop}
    (onlyWhole : other → whole) : LaneHolds front stream other owed read rest cut where
  isStream := holds.isStream
  isCut := holds.isCut
  fits := holds.fits
  inOrder := holds.inOrder
  complete := fun isOther => holds.complete (onlyWhole isOther)

/-- What the reader of a lane does: it takes the next datagram or has to wait. -/
theorem reads (holds : LaneHolds [] stream whole owed read rest cut) (ended : StreamEnd) :
    (∃ error, (readStreamDatagram ended stream).result = .error (.readExact error)) ∨
    ∃ payload later left, (readStreamDatagram ended stream).result = .ok (payload, left) ∧
      LaneHolds [] left whole owed (read ++ [payload]) later cut := by
  have isStream := holds.isStream
  cases rest with
  | nil =>
      rw [List.flatMap_nil, List.nil_append, List.nil_append] at isStream
      rw [isStream]
      exact Or.inl (holds.isCut.read ended)
  | cons payload later =>
      rw [List.nil_append, List.flatMap_cons, List.append_assoc] at isStream
      have isRead := (lane_framing ended).read_write payload (later.flatMap laneFrame ++ cut)
        (holds.fits payload List.mem_cons_self)
      rw [← isStream] at isRead
      refine Or.inr ⟨payload, later, _, isRead, rfl, holds.isCut, ?_, ?_, ?_⟩
      · exact fun other member => holds.fits other (List.mem_cons_of_mem _ member)
      · simpa using holds.inOrder
      · intro isWhole
        obtain ⟨noCut, isOwed⟩ := holds.complete isWhole
        exact ⟨noCut, by simpa using isOwed⟩

end LaneHolds

/-! ### One direction -/

/-- The streams of one direction: `sender` is the next lane of the sender while it is there,
and `fronts` what the set-up has left on each lane. -/
structure LaneDirection (lanes : Nat) (sender : Option Nat) (streams : List Bytes)
    (fronts : Nat → Bytes) (taken : List Bytes) (reads : List (Nat × Bytes)) : Prop where
  turn : ∀ next, sender = some next → next = taken.length % lanes
  streams : ∀ lane stream, streams[lane]? = some stream → ∃ rest cut,
    LaneHolds (fronts lane) stream sender.isSome (dealt lanes lane taken) (readFrom lane reads)
      rest cut
  tags : ∀ read ∈ reads, read.1 < lanes
  inOrder : ∀ lane, readFrom lane reads <+: dealt lanes lane taken

namespace LaneDirection

variable {lanes : Nat} {sender : Option Nat} {streams : List Bytes} {fronts : Nat → Bytes}
  {taken : List Bytes} {reads : List (Nat × Bytes)}

theorem start (lanes : Nat) (fronts : Nat → Bytes) :
    LaneDirection lanes (some 0) [] fronts [] [] where
  turn := fun next isNext => by cases isNext; exact (Nat.zero_mod lanes).symm
  streams := fun lane stream isStream => by cases isStream
  tags := fun read member => absurd member List.not_mem_nil
  inOrder := fun lane => List.prefix_rfl

/-- The sender is gone. -/
theorem gone (direction : LaneDirection lanes sender streams fronts taken reads)
    {fewer : Option Nat} (senderLeft : ∀ next, fewer = some next → sender = some next) :
    LaneDirection lanes fewer streams fronts taken reads where
  turn := fun next isNext => direction.turn next (senderLeft next isNext)
  streams := by
    intro lane stream isStream
    obtain ⟨rest, cut, holds⟩ := direction.streams lane stream isStream
    refine ⟨rest, cut, holds.gone ?_⟩
    intro isSome
    obtain ⟨next, isNext⟩ := Option.isSome_iff_exists.mp isSome
    rw [senderLeft next isNext]
    rfl
  tags := direction.tags
  inOrder := direction.inOrder

/-- The set-up takes a preface off the front of a lane, or puts one there. -/
theorem refront (direction : LaneDirection lanes sender streams fronts taken reads)
    {others : List Bytes} {newFronts : Nat → Bytes}
    (sameTails : ∀ lane stream, others[lane]? = some stream → ∃ tail,
      streams[lane]? = some (fronts lane ++ tail) ∧ stream = newFronts lane ++ tail) :
    LaneDirection lanes sender others newFronts taken reads where
  turn := direction.turn
  streams := by
    intro lane stream isStream
    obtain ⟨tail, wasStream, rfl⟩ := sameTails lane stream isStream
    obtain ⟨rest, cut, holds⟩ := direction.streams lane _ wasStream
    have isTail := List.append_cancel_left holds.isStream
    exact ⟨rest, cut, by rw [isTail], holds.isCut, holds.fits, holds.inOrder, holds.complete⟩
  tags := direction.tags
  inOrder := direction.inOrder

/-- A lane is opened before any packet is sent. -/
theorem opened (direction : LaneDirection lanes sender streams fronts [] reads) :
    LaneDirection lanes sender (streams ++ [fronts streams.length]) fronts [] reads where
  turn := direction.turn
  streams := by
    intro lane stream isStream
    have nothing : readFrom lane reads = [] := List.prefix_nil.mp (direction.inOrder lane)
    by_cases old : lane < streams.length
    · rw [List.getElem?_append_left old] at isStream
      exact direction.streams lane stream isStream
    · have isLast : lane = streams.length := by
        have within := (List.getElem?_eq_some_iff.mp isStream).1
        rw [List.length_append, List.length_singleton] at within
        omega
      rw [isLast, List.getElem?_concat_length] at isStream
      cases isStream
      rw [nothing, ← isLast]
      exact ⟨[], [], .new _ _⟩
  tags := direction.tags
  inOrder := direction.inOrder

theorem getElem?_appendTo (streams : List Bytes) (lane other : Nat) (bytes : Bytes) :
    (appendTo streams lane bytes)[other]? =
      if lane = other then (streams[other]?).map (· ++ bytes) else streams[other]? := by
  unfold appendTo
  rw [List.getElem?_modify]
  split <;> simp

/-- A packet takes the next lane. -/
theorem packet {Peer : Type*} {relay : LanedRelay Peer} {payload : Bytes} {written : Option Nat}
    (direction : LaneDirection lanes (some relay.nextLane) streams fronts taken reads)
    (fits : payload.length ≤ maxDatagram) {next : Option (LanedRelay Peer)}
    {after : List Bytes} {ended : Option LanedError}
    (isPacket : relay.packet lanes streams payload written = (next, after, ended)) :
    LaneDirection lanes (next.map LanedRelay.nextLane) after fronts (taken ++ [payload]) reads ∧
      after.length = streams.length ∧
      (next = some { relay with nextLane := (relay.nextLane + 1) % lanes } ∧ ended = none ∨
        next = none ∧ ended = some .io) := by
  have isTurn := direction.turn _ rfl
  have isDealt : ∀ lane, dealt lanes lane (taken ++ [payload]) =
      dealt lanes lane taken ++ if relay.nextLane = lane then [payload] else [] := by
    intro lane
    rw [dealt_snoc, isTurn]
  have inOrder : ∀ lane, readFrom lane reads <+: dealt lanes lane (taken ++ [payload]) := by
    intro lane
    rw [isDealt]
    exact (direction.inOrder lane).trans (List.prefix_append _ _)
  unfold LanedRelay.packet at isPacket
  rw [writeStreamDatagram_eq fits, List.nil_append] at isPacket
  dsimp only at isPacket
  split at isPacket
  next count isCount =>
    cases isPacket
    have short : count < (laneFrame payload).length :=
      of_decide_eq_true (Option.filter_eq_some_iff.mp isCount).2
    refine ⟨⟨fun _ isNone => absurd isNone (by simp), ?_, direction.tags, inOrder⟩, ?_,
      Or.inr ⟨rfl, rfl⟩⟩
    · intro lane stream isStream
      rw [getElem?_appendTo] at isStream
      rw [isDealt]
      split at isStream
      next same =>
        obtain ⟨before, wasStream, rfl⟩ := Option.map_eq_some_iff.mp isStream
        obtain ⟨rest, cut, holds⟩ := direction.streams lane before wasStream
        rw [if_pos same]
        exact ⟨rest, _, (holds.fail rfl fits short).gone (by simp)⟩
      next different =>
        obtain ⟨rest, cut, holds⟩ := direction.streams lane stream isStream
        rw [if_neg different, List.append_nil]
        exact ⟨rest, cut, holds.gone (by simp)⟩
    · exact List.length_modify _ _ _
  next =>
    cases isPacket
    refine ⟨⟨?_, ?_, direction.tags, inOrder⟩, ?_, Or.inl ⟨rfl, rfl⟩⟩
    · intro other isOther
      cases isOther
      rw [List.length_append, List.length_singleton, isTurn, Nat.mod_add_mod]
    · intro lane stream isStream
      rw [getElem?_appendTo] at isStream
      rw [isDealt]
      split at isStream
      next same =>
        obtain ⟨before, wasStream, rfl⟩ := Option.map_eq_some_iff.mp isStream
        obtain ⟨rest, cut, holds⟩ := direction.streams lane before wasStream
        rw [if_pos same]
        exact ⟨_, _, holds.write rfl fits⟩
      next different =>
        obtain ⟨rest, cut, holds⟩ := direction.streams lane stream isStream
        rw [if_neg different, List.append_nil]
        exact ⟨rest, cut, holds⟩
    · exact List.length_modify _ _ _

/-- The task of a lane that is set up reads its next datagram. -/
theorem read {Peer : Type*} {relay : LanedRelay Peer} {lane : Nat}
    (direction : LaneDirection lanes sender streams fronts taken reads)
    (noFront : lane < streams.length → fronts lane = []) (few : streams.length ≤ lanes)
    {next : Option (LanedRelay Peer)} {after : List Bytes} {ended : Option LanedError}
    (isRead : relay.read streams lane = some (next, after, ended)) :
    ∃ payload, next = some { relay with queue := relay.queue ++ [payload] } ∧ ended = none ∧
      after.length = streams.length ∧
      LaneDirection lanes sender after fronts taken (reads ++ [(lane, payload)]) := by
  unfold LanedRelay.read at isRead
  split at isRead
  next => cases isRead
  next =>
    split at isRead
    next => cases isRead
    next stream isStream =>
      have within := (List.getElem?_eq_some_iff.mp isStream).1
      obtain ⟨rest, cut, holds⟩ := direction.streams lane stream isStream
      rw [noFront within] at holds
      rcases holds.reads .connectionLost with ⟨error, failed⟩ | ⟨payload, later, left, isOk, after_⟩
      · rw [failed] at isRead
        cases isRead
      · rw [isOk] at isRead
        cases isRead
        have isReads : ∀ other, readFrom other (reads ++ [(lane, payload)]) =
            readFrom other reads ++ if lane = other then [payload] else [] :=
          fun other => readFrom_snoc other reads (lane, payload)
        refine ⟨payload, rfl, rfl, List.length_set, direction.turn, ?_, ?_, ?_⟩
        · intro other stream isOther
          rw [List.getElem?_set] at isOther
          rw [isReads]
          split at isOther
          next same =>
            subst same
            cases isOther
            rw [if_pos rfl, noFront within]
            exact ⟨later, cut, after_⟩
          next different =>
            rw [if_neg different, List.append_nil]
            exact direction.streams other stream isOther
        · intro read member
          rcases List.mem_append.mp member with old | new
          · exact direction.tags read old
          · rw [List.mem_singleton.mp new]
            exact Nat.lt_of_lt_of_le within few
        · intro other
          rw [isReads]
          split
          next same =>
            subst same
            exact (List.prefix_append _ later).trans after_.inOrder
          next => rw [List.append_nil]; exact direction.inOrder other

end LaneDirection

/-! ### Both directions -/

/-- The only number of lanes that can be configured, beside none. -/
theorem parseStreamLanes_ok {value : Option Text} {lanes : Nat}
    (isOk : parseStreamLanes value = .ok lanes) (positive : 0 < lanes) : lanes = 1 := by
  unfold parseStreamLanes at isOk
  split at isOk
  next =>
    cases isOk
    exact absurd positive (Nat.lt_irrefl 0)
  next =>
    split at isOk
    next => cases isOk
    next =>
      split at isOk
      next => cases isOk
      next isMaximum =>
        cases isOk
        exact of_not_not isMaximum

section Runs

variable {Peer : Type*}

/-- The preface of a lane that the server has not accepted. -/
def upFront (accepted lane : Nat) : Bytes := if accepted ≤ lane then [streamLanePreface] else []

/-- The preface of a lane whose answer the client has not read. -/
def downFront (answered accepted lane : Nat) : Bytes :=
  if answered ≤ lane ∧ lane < accepted then [streamLanePreface] else []

/-- The peer of the last packet from the local side. -/
def lastLocal (observed : List (LaneObservation Peer)) : Option Peer :=
  (observed.filterMap LaneObservation.localPeer?).getLast?

/-- A payload from the lanes goes to the peer of the last local packet, if there is one. -/
def GoesToLast (front : List (LaneObservation Peer)) (item : LaneObservation Peer) : Prop :=
  ∀ destination, item.destination? = some destination → lastLocal front = destination

def LaneObservation.Clean : LaneObservation Peer → Prop
  | .clientEnded error => error = .io
  | .serverEnded error => error = .io
  | _ => True

/-- The set-up of the lanes: the server has accepted `accepted` of them, and the client has
read the answer on `answered`. -/
structure SetUp (lanes : Nat) (state : Lanes Peer) (takenUp takenDown : List Bytes)
    (answered accepted : Nat) : Prop where
  client : ∀ client, state.client = some client →
    client.ready = answered ∧ state.toServer.length ≤ answered + 1
  server : ∀ server, state.server = some server → server.ready = accepted
  width : state.toClient.length = state.toServer.length
  few : state.toServer.length ≤ lanes
  ordered : answered ≤ accepted ∧ accepted ≤ state.toServer.length
  upQuiet : answered < lanes → takenUp = []
  downQuiet : accepted < lanes → takenDown = []
  untouched : ∀ lane stream, accepted ≤ lane → state.toClient[lane]? = some stream → stream = []

/-- What an end has taken from its lanes: the payloads it is done with and those in its
channel are the reads. -/
def Emptied (relay : Option (List Bytes)) (given : List Bytes) (reads : List (Nat × Bytes)) :
    Prop :=
  given <+: reads.map Prod.snd ∧ ∀ queue, relay = some queue → given ++ queue = reads.map Prod.snd

/-- What holds of the lanes after the events that showed `observed`. -/
structure LanesReached (lanes : Nat) (state : Lanes Peer) (observed : List (LaneObservation Peer))
    (answered accepted : Nat) (readsUp readsDown : List (Nat × Bytes)) : Prop where
  setUp : SetUp lanes state (observed.filterMap LaneObservation.takenUp?)
    (observed.filterMap LaneObservation.takenDown?) answered accepted
  up : LaneDirection lanes (state.client.map LanedRelay.nextLane) state.toServer
    (upFront accepted) (observed.filterMap LaneObservation.takenUp?) readsUp
  down : LaneDirection lanes (state.server.map LanedRelay.nextLane) state.toClient
    (downFront answered accepted) (observed.filterMap LaneObservation.takenDown?) readsDown
  upQueue : Emptied (state.server.map LanedRelay.queue)
    (observed.filterMap LaneObservation.givenUp?) readsUp
  downQueue : Emptied (state.client.map LanedRelay.queue)
    (observed.filterMap LaneObservation.givenDown?) readsDown
  peer : ∀ client, state.client = some client → client.peer = lastLocal observed
  destinations : ∀ front item, front ++ [item] <+: observed → GoesToLast front item
  clean : ∀ item ∈ observed, item.Clean

/-! ### The set-up -/

theorem readPreface_some {streams after : List Bytes} {lane : Nat} {isPreface : Bool}
    (isRead : readPreface streams lane = some (isPreface, after)) :
    ∃ byte rest, streams[lane]? = some (byte :: rest) ∧ isPreface = (byte == streamLanePreface) ∧
      after = streams.set lane rest := by
  unfold readPreface at isRead
  split at isRead
  next byte rest isStream =>
    cases isRead
    exact ⟨byte, rest, isStream, rfl, rfl⟩
  next => cases isRead

theorem length_appendTo (streams : List Bytes) (lane : Nat) (bytes : Bytes) :
    (appendTo streams lane bytes).length = streams.length :=
  List.length_modify _ _ _

variable {lanes answered accepted : Nat} {state : Lanes Peer}
  {observed : List (LaneObservation Peer)} {readsUp readsDown : List (Nat × Bytes)}

/-- Events that take, give and end nothing keep what was observed. -/
theorem LanesReached.quiet
    (reached : LanesReached lanes state observed answered accepted readsUp readsDown)
    {next : Lanes Peer} {answeredNext acceptedNext : Nat}
    (setUp : SetUp lanes next (observed.filterMap LaneObservation.takenUp?)
      (observed.filterMap LaneObservation.takenDown?) answeredNext acceptedNext)
    (isUp : LaneDirection lanes (next.client.map LanedRelay.nextLane) next.toServer
      (upFront acceptedNext) (observed.filterMap LaneObservation.takenUp?) readsUp)
    (isDown : LaneDirection lanes (next.server.map LanedRelay.nextLane) next.toClient
      (downFront answeredNext acceptedNext) (observed.filterMap LaneObservation.takenDown?)
      readsDown)
    (serverQueue : ∀ server, next.server = some server → ∃ before, state.server = some before ∧
      server.queue = before.queue)
    (client : ∀ client, next.client = some client → ∃ before, state.client = some before ∧
      client.queue = before.queue ∧ client.peer = before.peer) :
    LanesReached lanes next observed answeredNext acceptedNext readsUp readsDown where
  setUp := setUp
  up := isUp
  down := isDown
  upQueue := by
    refine ⟨reached.upQueue.1, ?_⟩
    intro queue isQueue
    obtain ⟨server, isServer, rfl⟩ := Option.map_eq_some_iff.mp isQueue
    obtain ⟨before, isBefore, sameQueue⟩ := serverQueue server isServer
    rw [sameQueue]
    exact reached.upQueue.2 _ (by rw [isBefore]; rfl)
  downQueue := by
    refine ⟨reached.downQueue.1, ?_⟩
    intro queue isQueue
    obtain ⟨next, isNext, rfl⟩ := Option.map_eq_some_iff.mp isQueue
    obtain ⟨before, isBefore, sameQueue, _⟩ := client next isNext
    rw [sameQueue]
    exact reached.downQueue.2 _ (by rw [isBefore]; rfl)
  peer := by
    intro next isNext
    obtain ⟨before, isBefore, _, samePeer⟩ := client next isNext
    rw [samePeer, reached.peer before isBefore]
  destinations := reached.destinations
  clean := reached.clean

/-- The client opens a lane. -/
theorem LanesReached.openLane
    (reached : LanesReached lanes state observed answered accepted readsUp readsDown)
    {client : LanedRelay Peer} (isClient : state.client = some client)
    (isNext : client.ready = state.toServer.length) (more : client.ready < lanes) :
    LanesReached lanes { state with
        toServer := state.toServer ++ [[streamLanePreface]]
        toClient := state.toClient ++ [[]] }
      observed answered accepted readsUp readsDown := by
  obtain ⟨isAnswered, _⟩ := reached.setUp.client client isClient
  have noUp := reached.setUp.upQuiet (by omega)
  obtain ⟨first, second⟩ := reached.setUp.ordered
  have noDown := reached.setUp.downQuiet (by omega)
  have isUp := reached.up
  have isDown := reached.down
  rw [noUp] at isUp
  rw [noDown] at isDown
  have upOpened := isUp.opened
  have downOpened := isDown.opened
  rw [upFront, if_pos second] at upOpened
  rw [downFront, if_neg (by rw [reached.setUp.width]; omega)] at downOpened
  refine reached.quiet ⟨?_, reached.setUp.server, ?_, ?_, ?_, reached.setUp.upQuiet,
    reached.setUp.downQuiet, ?_⟩ ?_ ?_ (fun server isServer => ⟨server, isServer, rfl⟩)
    (fun client isClient => ⟨client, isClient, rfl, rfl⟩)
  · intro other isOther
    cases isClient.symm.trans isOther
    refine ⟨isAnswered, ?_⟩
    rw [List.length_append, List.length_singleton]
    omega
  · rw [List.length_append, List.length_append, List.length_singleton, List.length_singleton,
      reached.setUp.width]
  · rw [List.length_append, List.length_singleton]
    omega
  · rw [List.length_append, List.length_singleton]
    omega
  · intro lane stream notAccepted isStream
    rcases getElem?_snoc isStream with old | ⟨_, new⟩
    · exact reached.setUp.untouched lane stream notAccepted old
    · exact new
  · rw [noUp]
    exact upOpened
  · rw [noDown]
    exact downOpened

/-- The stream of a lane starts with its front. -/
theorem LaneDirection.front {sender : Option Nat} {streams : List Bytes} {fronts : Nat → Bytes}
    {taken : List Bytes} {reads : List (Nat × Bytes)}
    (direction : LaneDirection lanes sender streams fronts taken reads) {lane : Nat}
    {stream : Bytes} (isStream : streams[lane]? = some stream) :
    ∃ tail, stream = fronts lane ++ tail := by
  obtain ⟨rest, cut, holds⟩ := direction.streams lane stream isStream
  exact ⟨_, holds.isStream⟩

/-- The byte the server reads on a new lane is the preface. -/
theorem LanesReached.acceptLane
    (reached : LanesReached lanes state observed answered accepted readsUp readsDown)
    {server : LanedRelay Unit} (isServer : state.server = some server)
    (more : server.ready < lanes) {isPreface : Bool} {toServer : List Bytes}
    (isRead : readPreface state.toServer server.ready = some (isPreface, toServer)) :
    isPreface = true ∧ LanesReached lanes { state with
        server := some { server with ready := server.ready + 1 }
        toServer
        toClient := appendTo state.toClient server.ready [streamLanePreface] }
      observed answered (accepted + 1) readsUp readsDown := by
  have isAccepted := reached.setUp.server server isServer
  obtain ⟨first, second⟩ := reached.setUp.ordered
  obtain ⟨byte, rest, isStream, isByte, rfl⟩ := readPreface_some isRead
  rw [isAccepted] at isStream more ⊢
  have within := (List.getElem?_eq_some_iff.mp isStream).1
  obtain ⟨tail, isFront⟩ := reached.up.front isStream
  rw [upFront, if_pos (Nat.le_refl _), List.singleton_append, List.cons.injEq] at isFront
  obtain ⟨rfl, rfl⟩ := isFront
  refine ⟨by rw [isByte]; exact beq_self_eq_true _, ?_⟩
  refine reached.quiet ⟨?_, ?_, ?_, ?_, ?_, reached.setUp.upQuiet, ?_, ?_⟩ ?_ ?_ ?_
    (fun client isClient => ⟨client, isClient, rfl, rfl⟩)
  · intro client isClient
    rw [List.length_set]
    exact reached.setUp.client client isClient
  · intro other isOther
    cases isOther
    rfl
  · rw [length_appendTo, List.length_set, reached.setUp.width]
  · rw [List.length_set]
    exact reached.setUp.few
  · rw [List.length_set]
    omega
  · exact fun fewer => reached.setUp.downQuiet (by omega)
  · intro lane stream notAccepted isStream
    rw [LaneDirection.getElem?_appendTo, if_neg (by omega)] at isStream
    exact reached.setUp.untouched lane stream (by omega) isStream
  · apply reached.up.refront
    intro lane stream isLane
    rw [List.getElem?_set] at isLane
    split at isLane
    next same =>
      subst same
      cases isLane
      refine ⟨rest, ?_, ?_⟩
      · rw [isStream, upFront, if_pos (Nat.le_refl _), List.singleton_append]
      · rw [upFront, if_neg (by omega), List.nil_append]
    next different =>
      obtain ⟨behind, rfl⟩ := reached.up.front isLane
      refine ⟨behind, isLane, ?_⟩
      have sameFront : accepted ≤ lane ↔ accepted + 1 ≤ lane := by omega
      rw [upFront, upFront]
      simp only [sameFront]
  · have isDown := reached.down
    rw [isServer] at isDown
    apply isDown.refront
    intro lane stream isLane
    rw [LaneDirection.getElem?_appendTo] at isLane
    split at isLane
    next same =>
      subst same
      obtain ⟨before, wasStream, rfl⟩ := Option.map_eq_some_iff.mp isLane
      have isNil := reached.setUp.untouched accepted before (Nat.le_refl _) wasStream
      subst isNil
      refine ⟨[], ?_, ?_⟩
      · rw [wasStream, downFront, if_neg (by omega)]
        rfl
      · rw [downFront, if_pos (by omega)]
        rfl
    next different =>
      obtain ⟨behind, rfl⟩ := reached.down.front isLane
      refine ⟨behind, isLane, ?_⟩
      have sameFront : answered ≤ lane ∧ lane < accepted ↔
          answered ≤ lane ∧ lane < accepted + 1 := by omega
      rw [downFront, downFront]
      simp only [sameFront]
  · intro other isOther
    cases isOther
    exact ⟨server, isServer, rfl⟩

/-- So is the byte the client reads as the answer. -/
theorem LanesReached.laneAnswered
    (reached : LanesReached lanes state observed answered accepted readsUp readsDown)
    {client : LanedRelay Peer} (isClient : state.client = some client)
    {isPreface : Bool} {toClient : List Bytes}
    (isRead : readPreface state.toClient client.ready = some (isPreface, toClient)) :
    isPreface = true ∧ LanesReached lanes { state with
        client := some { client with ready := client.ready + 1 }
        toClient }
      observed (answered + 1) accepted readsUp readsDown := by
  obtain ⟨isAnswered, atMost⟩ := reached.setUp.client client isClient
  obtain ⟨first, second⟩ := reached.setUp.ordered
  obtain ⟨byte, rest, isStream, isByte, rfl⟩ := readPreface_some isRead
  rw [isAnswered] at isStream ⊢
  have wasAccepted : answered < accepted := by
    by_contra notAccepted
    have isNil := reached.setUp.untouched answered _ (by omega) isStream
    cases isNil
  obtain ⟨tail, isFront⟩ := reached.down.front isStream
  rw [downFront, if_pos ⟨Nat.le_refl _, wasAccepted⟩, List.singleton_append,
    List.cons.injEq] at isFront
  obtain ⟨rfl, rfl⟩ := isFront
  refine ⟨by rw [isByte]; exact beq_self_eq_true _, ?_⟩
  refine reached.quiet ⟨?_, reached.setUp.server, ?_, reached.setUp.few, ⟨wasAccepted, second⟩, ?_,
    reached.setUp.downQuiet, ?_⟩ ?_ ?_ (fun server isServer => ⟨server, isServer, rfl⟩) ?_
  · intro other isOther
    cases isOther
    exact ⟨rfl, Nat.le_succ_of_le atMost⟩
  · rw [List.length_set, reached.setUp.width]
  · exact fun fewer => reached.setUp.upQuiet (by omega)
  · intro lane stream notAccepted isLane
    rw [List.getElem?_set_ne (by omega)] at isLane
    exact reached.setUp.untouched lane stream notAccepted isLane
  · have isUp := reached.up
    rw [isClient] at isUp
    exact isUp
  · apply reached.down.refront
    intro lane stream isLane
    rw [List.getElem?_set] at isLane
    split at isLane
    next same =>
      subst same
      rw [if_pos (List.getElem?_eq_some_iff.mp isStream).1] at isLane
      cases isLane
      refine ⟨rest, ?_, ?_⟩
      · rw [isStream, downFront, if_pos (by omega), List.singleton_append]
      · rw [downFront, if_neg (by omega), List.nil_append]
    next different =>
      obtain ⟨behind, rfl⟩ := reached.down.front isLane
      refine ⟨behind, isLane, ?_⟩
      have sameFront : answered ≤ lane ∧ lane < accepted ↔
          answered + 1 ≤ lane ∧ lane < accepted := by omega
      rw [downFront, downFront]
      simp only [sameFront]
  · intro other isOther
    cases isOther
    exact ⟨client, isClient, rfl, rfl⟩

/-! ### The ends -/

theorem filterMap_concat {α β : Type*} (observe : α → Option β) (items : List α) (item : α) :
    (items ++ [item]).filterMap observe = items.filterMap observe ++ (observe item).toList := by
  rw [List.filterMap_append]
  cases isSeen : observe item <;> simp [isSeen]

/-- The end of a loop takes and gives nothing. -/
theorem filterMap_ended {β : Type*} {observe : LaneObservation Peer → Option β}
    {item : LaneObservation Peer} (isEnd : item = .clientEnded .io ∨ item = .serverEnded .io)
    (observed : List (LaneObservation Peer)) (noClient : observe (.clientEnded .io) = none)
    (noServer : observe (.serverEnded .io) = none) :
    (observed ++ [item]).filterMap observe = observed.filterMap observe := by
  rw [filterMap_concat]
  rcases isEnd with rfl | rfl
  · rw [noClient, Option.toList_none, List.append_nil]
  · rw [noServer, Option.toList_none, List.append_nil]

/-- The end of a loop is seen. -/
theorem LanesReached.ended
    (reached : LanesReached lanes state observed answered accepted readsUp readsDown)
    {item : LaneObservation Peer} (isEnd : item = .clientEnded .io ∨ item = .serverEnded .io) :
    LanesReached lanes state (observed ++ [item]) answered accepted readsUp readsDown := by
  constructor
  · rw [filterMap_ended isEnd _ rfl rfl, filterMap_ended isEnd _ rfl rfl]
    exact reached.setUp
  · rw [filterMap_ended isEnd _ rfl rfl]
    exact reached.up
  · rw [filterMap_ended isEnd _ rfl rfl]
    exact reached.down
  · rw [filterMap_ended isEnd _ rfl rfl]
    exact reached.upQueue
  · rw [filterMap_ended isEnd _ rfl rfl]
    exact reached.downQueue
  · rw [lastLocal, filterMap_ended isEnd _ rfl rfl]
    exact reached.peer
  · apply front_append reached.destinations
    intro front other isPrefix destination isDestination
    rw [List.mem_singleton.mp (mem_of_front isPrefix)] at isDestination
    rcases isEnd with rfl | rfl <;> cases isDestination
  · intro other member
    rcases List.mem_append.mp member with old | new
    · exact reached.clean other old
    · rw [List.mem_singleton.mp new]
      rcases isEnd with rfl | rfl <;> rfl

theorem LanesReached.clientStops
    (reached : LanesReached lanes state observed answered accepted readsUp readsDown) :
    LanesReached lanes { state with client := none } observed answered accepted readsUp
      readsDown := by
  have setUp := reached.setUp
  refine reached.quiet ⟨?_, setUp.server, setUp.width, setUp.few, setUp.ordered, setUp.upQuiet,
    setUp.downQuiet, setUp.untouched⟩ ?_ reached.down
    (fun server isServer => ⟨server, isServer, rfl⟩) ?_
  · intro client isClient
    cases isClient
  · apply reached.up.gone
    intro next isNext
    cases isNext
  · intro client isClient
    cases isClient

theorem LanesReached.serverStops
    (reached : LanesReached lanes state observed answered accepted readsUp readsDown) :
    LanesReached lanes { state with server := none } observed answered accepted readsUp
      readsDown := by
  have setUp := reached.setUp
  refine reached.quiet ⟨setUp.client, ?_, setUp.width, setUp.few, setUp.ordered, setUp.upQuiet,
    setUp.downQuiet, setUp.untouched⟩ reached.up ?_ ?_
    (fun client isClient => ⟨client, isClient, rfl, rfl⟩)
  · intro server isServer
    cases isServer
  · apply reached.down.gone
    intro next isNext
    cases isNext
  · intro server isServer
    cases isServer

/-! ### The packets -/

/-- A packet from the local side. -/
theorem LanesReached.clientPacket
    (reached : LanesReached lanes state observed answered accepted readsUp readsDown)
    {client : LanedRelay Peer} (isClient : state.client = some client)
    (ready : client.ready = lanes) {peer : Peer} {payload : Bytes}
    (fits : payload.length ≤ maxDatagram) {written : Option Nat}
    {next : Option (LanedRelay Peer)} {toServer : List Bytes} {ended : Option LanedError}
    (isPacket : LanedRelay.packet { client with peer := some peer } lanes state.toServer payload
      written = (next, toServer, ended)) :
    LanesReached lanes { state with client := next, toServer }
      (observed ++ [.fromLocal peer payload]) answered accepted readsUp readsDown ∧
      (ended = none ∨ ended = some .io) := by
  have isUp : LaneDirection lanes (some (LanedRelay.nextLane { client with peer := some peer }))
      state.toServer (upFront accepted) (observed.filterMap LaneObservation.takenUp?) readsUp := by
    have isUp := reached.up
    rwa [isClient] at isUp
  obtain ⟨sent, sameLength, outcome⟩ := isUp.packet fits isPacket
  obtain ⟨isAnswered, atMost⟩ := reached.setUp.client client isClient
  obtain ⟨first, second⟩ := reached.setUp.ordered
  have goesOn : ∀ other, next = some other → other.ready = client.ready ∧
      other.queue = client.queue ∧ other.peer = some peer := by
    intro other isOther
    rcases outcome with ⟨isNext, _⟩ | ⟨isNone, _⟩
    · cases isNext.symm.trans isOther
      exact ⟨rfl, rfl, rfl⟩
    · cases isNone.symm.trans isOther
  refine ⟨?_, outcome.imp And.right And.right⟩
  constructor
  · refine ⟨?_, reached.setUp.server, reached.setUp.width.trans sameLength.symm,
      sameLength.le.trans reached.setUp.few, ⟨first, second.trans sameLength.ge⟩, ?_, ?_,
      reached.setUp.untouched⟩
    · intro other isOther
      rw [(goesOn other isOther).1]
      exact ⟨isAnswered, sameLength.le.trans atMost⟩
    · intro fewer
      omega
    · rw [filterMap_concat]
      exact fun fewer => List.append_eq_nil_iff.mpr ⟨reached.setUp.downQuiet fewer, rfl⟩
  · rw [filterMap_concat]
    exact sent
  · rw [filterMap_concat]
    exact (List.append_nil _).symm ▸ reached.down
  · rw [filterMap_concat]
    exact (List.append_nil _).symm ▸ reached.upQueue
  · rw [filterMap_concat]
    refine (List.append_nil _).symm ▸ ⟨reached.downQueue.1, ?_⟩
    intro queue isQueue
    obtain ⟨other, isOther, rfl⟩ := Option.map_eq_some_iff.mp isQueue
    rw [(goesOn other isOther).2.1]
    exact reached.downQueue.2 _ (by rw [isClient]; rfl)
  · intro other isOther
    rw [(goesOn other isOther).2.2, lastLocal, filterMap_concat]
    exact List.getLast?_concat.symm
  · apply front_append reached.destinations
    intro front item isPrefix destination isDestination
    rw [List.mem_singleton.mp (mem_of_front isPrefix)] at isDestination
    cases isDestination
  · intro item member
    rcases List.mem_append.mp member with old | new
    · exact reached.clean item old
    · rw [List.mem_singleton.mp new]
      trivial

/-- A packet from upstream. -/
theorem LanesReached.serverPacket
    (reached : LanesReached lanes state observed answered accepted readsUp readsDown)
    {server : LanedRelay Unit} (isServer : state.server = some server)
    (ready : server.ready = lanes) {payload : Bytes} (fits : payload.length ≤ maxDatagram)
    {written : Option Nat} {next : Option (LanedRelay Unit)} {toClient : List Bytes}
    {ended : Option LanedError}
    (isPacket : server.packet lanes state.toClient payload written = (next, toClient, ended)) :
    LanesReached lanes { state with server := next, toClient }
      (observed ++ [.fromUpstream payload]) answered accepted readsUp readsDown ∧
      (ended = none ∨ ended = some .io) := by
  have isDown := reached.down
  rw [isServer, Option.map_some] at isDown
  obtain ⟨sent, sameLength, outcome⟩ := isDown.packet fits isPacket
  have isAccepted := reached.setUp.server server isServer
  obtain ⟨first, second⟩ := reached.setUp.ordered
  have full : state.toClient.length ≤ accepted := by
    rw [reached.setUp.width, ← isAccepted, ready]
    exact reached.setUp.few
  have goesOn : ∀ other, next = some other →
      other.ready = server.ready ∧ other.queue = server.queue := by
    intro other isOther
    rcases outcome with ⟨isNext, _⟩ | ⟨isNone, _⟩
    · cases isNext.symm.trans isOther
      exact ⟨rfl, rfl⟩
    · cases isNone.symm.trans isOther
  refine ⟨?_, outcome.imp And.right And.right⟩
  constructor
  · refine ⟨reached.setUp.client, ?_, sameLength.trans reached.setUp.width, reached.setUp.few,
      reached.setUp.ordered, ?_, ?_, ?_⟩
    · intro other isOther
      rw [(goesOn other isOther).1]
      exact isAccepted
    · rw [filterMap_concat]
      exact fun fewer => List.append_eq_nil_iff.mpr ⟨reached.setUp.upQuiet fewer, rfl⟩
    · intro fewer
      omega
    · intro lane stream notAccepted isStream
      have within := (List.getElem?_eq_some_iff.mp isStream).1
      exact absurd (within.trans_le (sameLength.le.trans full)) (Nat.not_lt.mpr notAccepted)
  · rw [filterMap_concat]
    exact (List.append_nil _).symm ▸ reached.up
  · rw [filterMap_concat]
    exact sent
  · rw [filterMap_concat]
    refine (List.append_nil _).symm ▸ ⟨reached.upQueue.1, ?_⟩
    intro queue isQueue
    obtain ⟨other, isOther, rfl⟩ := Option.map_eq_some_iff.mp isQueue
    rw [(goesOn other isOther).2]
    exact reached.upQueue.2 _ (by rw [isServer]; rfl)
  · rw [filterMap_concat]
    exact (List.append_nil _).symm ▸ reached.downQueue
  · rw [lastLocal, filterMap_concat]
    exact (List.append_nil _).symm ▸ reached.peer
  · apply front_append reached.destinations
    intro front item isPrefix destination isDestination
    rw [List.mem_singleton.mp (mem_of_front isPrefix)] at isDestination
    cases isDestination
  · intro item member
    rcases List.mem_append.mp member with old | new
    · exact reached.clean item old
    · rw [List.mem_singleton.mp new]
      trivial

/-! ### The lane readers -/

theorem Emptied.read {Peer : Type*} {relay : LanedRelay Peer} {given : List Bytes}
    {reads : List (Nat × Bytes)} (emptied : Emptied (some relay.queue) given reads)
    (read : Nat × Bytes) : Emptied (some (relay.queue ++ [read.2])) given (reads ++ [read]) := by
  have isRead : given ++ (relay.queue ++ [read.2]) = (reads ++ [read]).map Prod.snd := by
    rw [← List.append_assoc, emptied.2 _ rfl, List.map_append]
    rfl
  refine ⟨?_, ?_⟩
  · rw [← isRead]
    exact List.prefix_append _ _
  · intro queue isQueue
    cases isQueue
    exact isRead

theorem Emptied.give {payload : Bytes} {queue given : List Bytes} {reads : List (Nat × Bytes)}
    (emptied : Emptied (some (payload :: queue)) given reads) :
    Emptied (some queue) (given ++ [payload]) reads := by
  have isRead : given ++ [payload] ++ queue = reads.map Prod.snd := by
    rw [← emptied.2 _ rfl, List.append_assoc]
    rfl
  refine ⟨?_, ?_⟩
  · rw [← isRead]
    exact List.prefix_append _ _
  · intro other isOther
    cases isOther
    exact isRead

/-- The task of a lane reads at the client. -/
theorem LanesReached.clientReads
    (reached : LanesReached lanes state observed answered accepted readsUp readsDown)
    {client : LanedRelay Peer} (isClient : state.client = some client)
    (ready : client.ready = lanes) {lane : Nat} {next : Option (LanedRelay Peer)}
    {toClient : List Bytes} {ended : Option LanedError}
    (isRead : client.read state.toClient lane = some (next, toClient, ended)) :
    ended = none ∧ ∃ read, LanesReached lanes { state with client := next, toClient } observed
      answered accepted readsUp (readsDown ++ [read]) := by
  obtain ⟨isAnswered, atMost⟩ := reached.setUp.client client isClient
  obtain ⟨first, second⟩ := reached.setUp.ordered
  have setUp := reached.setUp
  have full : state.toClient.length ≤ answered := by
    rw [setUp.width, ← isAnswered, ready]
    exact setUp.few
  have noFront : lane < state.toClient.length → downFront answered accepted lane = [] := by
    intro within
    rw [downFront, if_neg (by omega)]
  obtain ⟨payload, rfl, rfl, sameLength, isDown⟩ := reached.down.read noFront
    (setUp.width.le.trans setUp.few) isRead
  have isUp := reached.up
  rw [isClient] at isUp
  refine ⟨rfl, (lane, payload), ?_, isUp, isDown, reached.upQueue, ?_, ?_,
    reached.destinations, reached.clean⟩
  · refine ⟨?_, setUp.server, sameLength.trans setUp.width, setUp.few, setUp.ordered,
      setUp.upQuiet, setUp.downQuiet, ?_⟩
    · intro other isOther
      cases isOther
      exact ⟨isAnswered, atMost⟩
    · intro other stream notAccepted isStream
      have within := (List.getElem?_eq_some_iff.mp isStream).1
      exact absurd (within.trans_le (sameLength.le.trans full))
        (Nat.not_lt.mpr (first.trans notAccepted))
  · have downQueue := reached.downQueue
    rw [isClient] at downQueue
    exact downQueue.read (lane, payload)
  · intro other isOther
    cases isOther
    exact reached.peer client isClient

/-- The task of a lane reads at the server. -/
theorem LanesReached.serverReads
    (reached : LanesReached lanes state observed answered accepted readsUp readsDown)
    {server : LanedRelay Unit} (isServer : state.server = some server)
    (ready : server.ready = lanes) {lane : Nat} {next : Option (LanedRelay Unit)}
    {toServer : List Bytes} {ended : Option LanedError}
    (isRead : server.read state.toServer lane = some (next, toServer, ended)) :
    ended = none ∧ ∃ read, LanesReached lanes { state with server := next, toServer } observed
      answered accepted (readsUp ++ [read]) readsDown := by
  have isAccepted := reached.setUp.server server isServer
  obtain ⟨first, second⟩ := reached.setUp.ordered
  have setUp := reached.setUp
  have noFront : lane < state.toServer.length → upFront accepted lane = [] := by
    intro within
    have few := setUp.few
    rw [upFront, if_neg (by omega)]
  obtain ⟨payload, rfl, rfl, sameLength, isUp⟩ := reached.up.read noFront setUp.few isRead
  have isDown := reached.down
  rw [isServer] at isDown
  refine ⟨rfl, (lane, payload), ?_, isUp, isDown, ?_, reached.downQueue, reached.peer,
    reached.destinations, reached.clean⟩
  · refine ⟨?_, ?_, setUp.width.trans sameLength.symm, sameLength.le.trans setUp.few,
      ⟨first, second.trans sameLength.ge⟩, setUp.upQuiet, setUp.downQuiet, setUp.untouched⟩
    · intro client isClient
      obtain ⟨isAnswered, atMost⟩ := setUp.client client isClient
      exact ⟨isAnswered, sameLength.le.trans atMost⟩
    · intro other isOther
      cases isOther
      exact isAccepted
  · have upQueue := reached.upQueue
    rw [isServer] at upQueue
    exact upQueue.read (lane, payload)

/-- The client is done with a payload: it goes to the last local peer. -/
theorem LanesReached.clientGives
    (reached : LanesReached lanes state observed answered accepted readsUp readsDown)
    {client : LanedRelay Peer} (isClient : state.client = some client) {payload : Bytes}
    {queue : List Bytes} (isQueue : client.queue = payload :: queue)
    {item : LaneObservation Peer}
    (isItem : client.peer = none ∧ item = .discarded payload ∨
      ∃ peer, client.peer = some peer ∧ item = .toLocal peer payload) :
    LanesReached lanes { state with client := some { client with queue } } (observed ++ [item])
      answered accepted readsUp readsDown := by
  have setUp := reached.setUp
  have isPeer := reached.peer client isClient
  have unseen : item.takenUp? = none ∧ item.takenDown? = none ∧ item.givenUp? = none ∧
      item.localPeer? = none := by
    rcases isItem with ⟨_, rfl⟩ | ⟨peer, _, rfl⟩ <;> exact ⟨rfl, rfl, rfl, rfl⟩
  have isGiven : item.givenDown? = some payload := by
    rcases isItem with ⟨_, rfl⟩ | ⟨peer, _, rfl⟩ <;> rfl
  obtain ⟨noUp, noDown, notUp, noPeer⟩ := unseen
  constructor
  · rw [filterMap_concat, filterMap_concat, noUp, noDown, Option.toList_none, List.append_nil,
      List.append_nil]
    refine ⟨?_, setUp.server, setUp.width, setUp.few, setUp.ordered, setUp.upQuiet,
      setUp.downQuiet, setUp.untouched⟩
    intro other isOther
    cases isOther
    exact setUp.client client isClient
  · rw [filterMap_concat, noUp, Option.toList_none, List.append_nil]
    have isUp := reached.up
    rw [isClient] at isUp
    exact isUp
  · rw [filterMap_concat, noDown, Option.toList_none, List.append_nil]
    exact reached.down
  · rw [filterMap_concat, notUp, Option.toList_none, List.append_nil]
    exact reached.upQueue
  · rw [filterMap_concat, isGiven]
    have downQueue := reached.downQueue
    rw [isClient, Option.map_some, isQueue] at downQueue
    exact downQueue.give
  · intro other isOther
    cases isOther
    rw [lastLocal, filterMap_concat, noPeer, Option.toList_none, List.append_nil]
    exact isPeer
  · apply front_append reached.destinations
    intro front other isPrefix destination isDestination
    obtain ⟨rfl, rfl⟩ := front_singleton isPrefix
    rw [List.append_nil]
    rcases isItem with ⟨noneYet, rfl⟩ | ⟨peer, isLast, rfl⟩
    · cases isDestination
      rw [← isPeer, noneYet]
    · cases isDestination
      rw [← isPeer, isLast]
  · intro other member
    rcases List.mem_append.mp member with old | new
    · exact reached.clean other old
    · rw [List.mem_singleton.mp new]
      rcases isItem with ⟨_, rfl⟩ | ⟨peer, _, rfl⟩ <;> trivial

/-- The server sends a payload to its upstream. -/
theorem LanesReached.serverGives
    (reached : LanesReached lanes state observed answered accepted readsUp readsDown)
    {server : LanedRelay Unit} (isServer : state.server = some server) {payload : Bytes}
    {queue : List Bytes} (isQueue : server.queue = payload :: queue) :
    LanesReached lanes { state with server := some { server with queue } }
      (observed ++ [.toUpstream payload]) answered accepted readsUp readsDown := by
  have setUp := reached.setUp
  constructor
  · rw [filterMap_concat, filterMap_concat]
    refine (List.append_nil _).symm ▸ (List.append_nil _).symm ▸ ⟨setUp.client, ?_, setUp.width,
      setUp.few, setUp.ordered, setUp.upQuiet, setUp.downQuiet, setUp.untouched⟩
    intro other isOther
    cases isOther
    exact setUp.server server isServer
  · rw [filterMap_concat]
    exact (List.append_nil _).symm ▸ reached.up
  · rw [filterMap_concat]
    have isDown := reached.down
    rw [isServer] at isDown
    exact (List.append_nil _).symm ▸ isDown
  · rw [filterMap_concat]
    have upQueue := reached.upQueue
    rw [isServer, Option.map_some, isQueue] at upQueue
    exact upQueue.give
  · rw [filterMap_concat]
    exact (List.append_nil _).symm ▸ reached.downQueue
  · rw [lastLocal, filterMap_concat]
    exact (List.append_nil _).symm ▸ reached.peer
  · apply front_append reached.destinations
    intro front item isPrefix destination isDestination
    rw [List.mem_singleton.mp (mem_of_front isPrefix)] at isDestination
    cases isDestination
  · intro item member
    rcases List.mem_append.mp member with old | new
    · exact reached.clean item old
    · rw [List.mem_singleton.mp new]
      trivial

/-! ### The runs -/

/-- Every event keeps it. -/
theorem LanesReached.step
    (reached : LanesReached lanes state observed answered accepted readsUp readsDown)
    {event : LaneEvent Peer} {next : Lanes Peer} {emitted : List (LaneObservation Peer)}
    (stepped : state.step lanes event = some (next, emitted)) :
    ∃ answered accepted readsUp readsDown,
      LanesReached lanes next (observed ++ emitted) answered accepted readsUp readsDown := by
  cases event with
  | openLane =>
      obtain ⟨client, isClient, stepped⟩ := Option.bind_eq_some_iff.mp stepped
      split at stepped
      next opens =>
        cases stepped
        rw [List.append_nil]
        exact ⟨_, _, _, _, reached.openLane isClient opens.1 opens.2⟩
      next => cases stepped
  | acceptLane =>
      obtain ⟨server, isServer, stepped⟩ := Option.bind_eq_some_iff.mp stepped
      split at stepped
      next more =>
        obtain ⟨⟨isPreface, toServer⟩, isRead, isNext⟩ := Option.map_eq_some_iff.mp stepped
        obtain ⟨rfl, accepts⟩ := reached.acceptLane isServer more isRead
        cases isNext
        rw [List.append_nil]
        exact ⟨_, _, _, _, accepts⟩
      next => cases stepped
  | laneAnswered =>
      obtain ⟨client, isClient, stepped⟩ := Option.bind_eq_some_iff.mp stepped
      split at stepped
      next =>
        obtain ⟨⟨isPreface, toClient⟩, isRead, isNext⟩ := Option.map_eq_some_iff.mp stepped
        obtain ⟨rfl, answers⟩ := reached.laneAnswered isClient isRead
        cases isNext
        rw [List.append_nil]
        exact ⟨_, _, _, _, answers⟩
      next => cases stepped
  | clientPacket peer payload written =>
      obtain ⟨client, isClient, stepped⟩ := Option.bind_eq_some_iff.mp stepped
      split at stepped
      next ready =>
        cases stepped
        obtain ⟨packet, isEnded⟩ :=
          reached.clientPacket isClient ready (length_received_le payload) rfl
        rcases isEnded with noError | isError
        · rw [noError]
          exact ⟨_, _, _, _, packet⟩
        · have ended := packet.ended (Or.inl rfl)
          rw [List.append_assoc] at ended
          rw [isError]
          exact ⟨_, _, _, _, ended⟩
      next => cases stepped
  | serverPacket payload written =>
      obtain ⟨server, isServer, stepped⟩ := Option.bind_eq_some_iff.mp stepped
      split at stepped
      next ready =>
        cases stepped
        obtain ⟨packet, isEnded⟩ :=
          reached.serverPacket isServer ready (length_received_le payload) rfl
        rcases isEnded with noError | isError
        · rw [noError]
          exact ⟨_, _, _, _, packet⟩
        · have ended := packet.ended (Or.inr rfl)
          rw [List.append_assoc] at ended
          rw [isError]
          exact ⟨_, _, _, _, ended⟩
      next => cases stepped
  | clientReads lane =>
      obtain ⟨client, isClient, stepped⟩ := Option.bind_eq_some_iff.mp stepped
      split at stepped
      next ready =>
        obtain ⟨⟨after, toClient, ended⟩, isRead, isNext⟩ := Option.map_eq_some_iff.mp stepped
        obtain ⟨rfl, read, reads⟩ := reached.clientReads isClient ready isRead
        cases isNext
        rw [Option.toList_none, List.map_nil, List.append_nil]
        exact ⟨_, _, _, _, reads⟩
      next => cases stepped
  | serverReads lane =>
      obtain ⟨server, isServer, stepped⟩ := Option.bind_eq_some_iff.mp stepped
      split at stepped
      next ready =>
        obtain ⟨⟨after, toServer, ended⟩, isRead, isNext⟩ := Option.map_eq_some_iff.mp stepped
        obtain ⟨rfl, read, reads⟩ := reached.serverReads isServer ready isRead
        cases isNext
        rw [Option.toList_none, List.map_nil, List.append_nil]
        exact ⟨_, _, _, _, reads⟩
      next => cases stepped
  | clientGives sends =>
      obtain ⟨client, isClient, stepped⟩ := Option.bind_eq_some_iff.mp stepped
      split at stepped
      next => cases stepped
      next payload queue isQueue =>
        split at stepped
        next noPeer =>
          cases stepped
          exact ⟨_, _, _, _, reached.clientGives isClient isQueue (Or.inl ⟨noPeer, rfl⟩)⟩
        next peer isPeer =>
          split at stepped
          next =>
            cases stepped
            exact ⟨_, _, _, _, reached.clientGives isClient isQueue (Or.inr ⟨peer, isPeer, rfl⟩)⟩
          next =>
            cases stepped
            exact ⟨_, _, _, _, reached.clientStops.ended (Or.inl rfl)⟩
  | serverGives sends =>
      obtain ⟨server, isServer, stepped⟩ := Option.bind_eq_some_iff.mp stepped
      split at stepped
      next => cases stepped
      next payload queue isQueue =>
        split at stepped
        next =>
          cases stepped
          exact ⟨_, _, _, _, reached.serverGives isServer isQueue⟩
        next =>
          cases stepped
          exact ⟨_, _, _, _, reached.serverStops.ended (Or.inr rfl)⟩
  | clientFails =>
      obtain ⟨client, _, isNext⟩ := Option.map_eq_some_iff.mp stepped
      cases isNext
      exact ⟨_, _, _, _, reached.clientStops.ended (Or.inl rfl)⟩
  | serverFails =>
      obtain ⟨server, _, isNext⟩ := Option.map_eq_some_iff.mp stepped
      cases isNext
      exact ⟨_, _, _, _, reached.serverStops.ended (Or.inr rfl)⟩

theorem LanesReached.start (lanes : Nat) :
    LanesReached lanes (Lanes.start : Lanes Peer) [] 0 0 [] [] where
  setUp := {
    client := fun client isClient => by cases isClient; exact ⟨rfl, Nat.zero_le _⟩
    server := fun server isServer => by cases isServer; rfl
    width := rfl
    few := Nat.zero_le _
    ordered := ⟨Nat.le_refl _, Nat.le_refl _⟩
    upQuiet := fun _ => rfl
    downQuiet := fun _ => rfl
    untouched := fun lane stream _ isStream => by cases isStream }
  up := .start lanes _
  down := .start lanes _
  upQueue := ⟨List.prefix_rfl, fun queue isQueue => by cases isQueue; rfl⟩
  downQueue := ⟨List.prefix_rfl, fun queue isQueue => by cases isQueue; rfl⟩
  peer := fun client isClient => by cases isClient; rfl
  destinations := fun front item isPrefix => absurd (List.prefix_nil.mp isPrefix) (by simp)
  clean := fun item member => absurd member List.not_mem_nil

theorem lanesReached_of_run {events : List (LaneEvent Peer)}
    (ran : run (Lanes.step lanes) Lanes.start events = some (state, observed)) :
    ∃ answered accepted readsUp readsDown,
      LanesReached lanes state observed answered accepted readsUp readsDown := by
  refine run_invariant ran (fun _ observed state => ∃ answered accepted readsUp readsDown,
    LanesReached lanes state observed answered accepted readsUp readsDown)
    ⟨0, 0, [], [], .start lanes⟩ ?_
  rintro past event observed state next emitted _ _ stepped ⟨_, _, _, _, reached⟩
  exact reached.step stepped

/-- What the lanes of one direction deliver: `reads` are datagrams with their lanes, in the
order in which they come into the channel. -/
def LaneByLane (lanes : Nat) (taken given : List Bytes) : Prop :=
  ∃ reads : List (Nat × Bytes), (∀ read ∈ reads, read.1 < lanes) ∧
    (∀ lane, readFrom lane reads <+: dealt lanes lane taken) ∧ given <+: reads.map Prod.snd

/-- With one lane the carrier is a queue. -/
theorem LaneByLane.one {taken given : List Bytes} (delivered : LaneByLane 1 taken given) :
    given <+: taken := by
  obtain ⟨reads, tags, inOrder, isGiven⟩ := delivered
  have whole := inOrder 0
  rw [dealt_one, readFrom_zero tags] at whole
  exact isGiven.trans whole

/-- Whatever the order of the events and wherever an end fails: every lane delivers its
datagrams in order and each once, the carrier as it can be configured is a queue in both
directions, the next lane always exists, payloads go to the last local peer, and a loop
ends on nothing but a failed socket or stream. -/
theorem lanes_keep_order (positive : 0 < lanes) (events : List (LaneEvent Peer))
    (ran : run (Lanes.step lanes) Lanes.start events = some (state, observed)) :
    LaneByLane lanes (observed.filterMap LaneObservation.takenUp?)
      (observed.filterMap LaneObservation.givenUp?) ∧
    LaneByLane lanes (observed.filterMap LaneObservation.takenDown?)
      (observed.filterMap LaneObservation.givenDown?) ∧
    (∀ value, parseStreamLanes value = .ok lanes →
      observed.filterMap LaneObservation.givenUp? <+:
        observed.filterMap LaneObservation.takenUp? ∧
      observed.filterMap LaneObservation.givenDown? <+:
        observed.filterMap LaneObservation.takenDown?) ∧
    (∀ client, state.client = some client → client.nextLane < lanes) ∧
    (∀ server, state.server = some server → server.nextLane < lanes) ∧
    (∀ front item, front ++ [item] <+: observed → GoesToLast front item) ∧
    ∀ item ∈ observed, item.Clean := by
  obtain ⟨answered, accepted, readsUp, readsDown, reached⟩ := lanesReached_of_run ran
  have up : LaneByLane lanes (observed.filterMap LaneObservation.takenUp?)
      (observed.filterMap LaneObservation.givenUp?) :=
    ⟨readsUp, reached.up.tags, reached.up.inOrder, reached.upQueue.1⟩
  have down : LaneByLane lanes (observed.filterMap LaneObservation.takenDown?)
      (observed.filterMap LaneObservation.givenDown?) :=
    ⟨readsDown, reached.down.tags, reached.down.inOrder, reached.downQueue.1⟩
  refine ⟨up, down, ?_, ?_, ?_, reached.destinations, reached.clean⟩
  · intro value isConfigured
    have oneLane : lanes = 1 := parseStreamLanes_ok isConfigured positive
    rw [oneLane] at up down
    exact ⟨up.one, down.one⟩
  · intro client isClient
    rw [reached.up.turn client.nextLane (by rw [isClient]; rfl)]
    exact Nat.mod_lt _ positive
  · intro server isServer
    rw [reached.down.turn server.nextLane (by rw [isServer]; rfl)]
    exact Nat.mod_lt _ positive

end Runs

/-- The set-up of one lane, a packet each way, and a packet whose stream fails in its length. -/
def lanedExchange : List (LaneEvent Nat) :=
  [.openLane, .acceptLane, .laneAnswered, .clientPacket 7 [1, 2] none, .clientPacket 8 [3] none,
    .serverReads 0, .serverPacket [9] none, .serverReads 0, .serverGives true, .serverGives true,
    .clientReads 0, .clientGives true, .serverPacket [4] (some 3)]

theorem lanes_keep_order_exchange :
    ∃ state observed, run (Lanes.step 1) Lanes.start lanedExchange = some (state, observed) ∧
      observed = [.fromLocal 7 [1, 2], .fromLocal 8 [3], .fromUpstream [9], .toUpstream [1, 2],
        .toUpstream [3], .toLocal 8 [9], .fromUpstream [4], .serverEnded .io] ∧
      LaneByLane 1 (observed.filterMap LaneObservation.takenUp?)
        (observed.filterMap LaneObservation.givenUp?) ∧
      LaneByLane 1 (observed.filterMap LaneObservation.takenDown?)
        (observed.filterMap LaneObservation.givenDown?) := by
  refine ⟨_, _, rfl, rfl, ?_⟩
  have safe := lanes_keep_order Nat.one_pos lanedExchange rfl
  exact ⟨safe.1, safe.2.1⟩

end SmartFecTunnel.Relay
