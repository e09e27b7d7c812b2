import SmartFecTunnel.Tunnel.Acceptance

/-!
Contract: nothing goes to the upstream twice over a whole run.

Two memories of a worker go with it, and one of them goes before: the window of
accepted sequence numbers and the records of its groups, which expire.  A frame
that is accepted a second time gives its shard a second time, and so does a
redundant group that is opened again.

Owns:
- `KeepsGroups`, the runs in which no redundant group is opened again;
- that over these runs, when repeated frames meet the session that accepted them,
  every frame is accepted once, every source is handed over once, and every
  datagram for the upstream is put together of shards that no other one uses.

Does not own: what a second time would cost the service behind the upstream.
-/

namespace SmartFecTunnel.Tunnel

open SmartFecTunnel.Library
open SmartFecTunnel.Fec
open SmartFecTunnel.Wire

/-! ### The part of one session -/

/-- What the workers of a session did, in all its lives. -/
def handlingsOf (id : SessionKey) (trace : List Observation) : List Handling :=
  trace.filterMap fun
    | .handled other handling => if other = id then some handling else none
    | _ => none

/-- The sequence numbers that the workers of a session accepted, in all its lives. -/
def acceptedBy (id : SessionKey) (trace : List Observation) : List Nat :=
  trace.filterMap fun
    | .accepted other sequence => if other = id then some sequence else none
    | _ => none

theorem handlingsOf_append (id : SessionKey) (front back : List Observation) :
    handlingsOf id (front ++ back) = handlingsOf id front ++ handlingsOf id back :=
  List.filterMap_append

theorem acceptedBy_append (id : SessionKey) (front back : List Observation) :
    acceptedBy id (front ++ back) = acceptedBy id front ++ acceptedBy id back :=
  List.filterMap_append

theorem mem_acceptedBy {id : SessionKey} {trace : List Observation} {sequence : Nat} :
    sequence ∈ acceptedBy id trace ↔ (id, sequence) ∈ acceptedFrames trace := by
  unfold acceptedBy acceptedFrames
  rw [List.mem_filterMap, List.mem_filterMap]
  apply exists_congr
  intro observation
  cases observation with
  | opened other => simp
  | accepted other number => simp [Prod.ext_iff]
  | handled other handling => simp

/-- A step that opens sessions and lets no worker do anything. -/
theorem of_opened (id : SessionKey) (ids : List SessionKey) :
    handlingsOf id (ids.map Observation.opened) = [] ∧
      acceptedBy id (ids.map Observation.opened) = [] := by
  unfold handlingsOf acceptedBy
  rw [List.filterMap_map, List.filterMap_map]
  exact ⟨List.filterMap_eq_nil_iff.mpr fun _ _ => rfl, List.filterMap_eq_nil_iff.mpr fun _ _ => rfl⟩

theorem of_accepted (id other : SessionKey) (sequences : List Nat) :
    handlingsOf id (sequences.map (Observation.accepted other)) = [] ∧
      acceptedBy id (sequences.map (Observation.accepted other)) =
        if other = id then sequences else [] := by
  unfold handlingsOf acceptedBy
  rw [List.filterMap_map, List.filterMap_map]
  refine ⟨List.filterMap_eq_nil_iff.mpr fun _ _ => rfl, ?_⟩
  split
  next same =>
    subst same
    exact (List.filterMap_congr fun _ _ => if_pos rfl).trans List.filterMap_some
  next different => exact List.filterMap_eq_nil_iff.mpr fun _ _ => if_neg different

theorem of_handled (id other : SessionKey) (handled : List Handling) :
    handlingsOf id (handled.map (Observation.handled other)) =
        (if other = id then handled else []) ∧
      acceptedBy id (handled.map (Observation.handled other)) = [] := by
  unfold handlingsOf acceptedBy
  rw [List.filterMap_map, List.filterMap_map]
  refine ⟨?_, List.filterMap_eq_nil_iff.mpr fun _ _ => rfl⟩
  split
  next same =>
    subst same
    exact (List.filterMap_congr fun _ _ => if_pos rfl).trans List.filterMap_some
  next different => exact List.filterMap_eq_nil_iff.mpr fun _ _ => if_neg different

/-! ### One round -/

/-- What a round puts out for the upstream. -/
def forwarded (outputs : List SessionOutput) : List Bytes :=
  outputs.filterMap fun
    | .upstream datagram => some datagram
    | .toPeer _ _ => none

theorem forwarded_upstream (datagrams : List Bytes) :
    forwarded (datagrams.map SessionOutput.upstream) = datagrams := by
  unfold forwarded
  rw [List.filterMap_map]
  exact List.filterMap_some

theorem forwarded_sendFrames (peer : SocketAddr) (frames : List Frame) :
    forwarded (Session.sendFrames peer frames) = [] := by
  unfold forwarded Session.sendFrames
  rw [List.filterMap_map]
  exact List.filterMap_eq_nil_iff.mpr fun _ _ => rfl

theorem forwards_eq (id : SessionKey) (outputs : List SessionOutput) :
    forwards (outputs.map fun output => (id, output)) =
      ((forwarded outputs).map Handling.output).map fun handling => (id, handling) := by
  unfold forwards forwarded
  induction outputs with
  | nil => rfl
  | cons first rest inductionHypothesis =>
      cases first with
      | upstream datagram => exact congrArg _ inductionHypothesis
      | toPeer peer frame => exact inductionHypothesis

namespace Session

/-- The accepted frame reaches the decoder, or it is a loss report. -/
theorem accounts_packet {rs : ReedSolomon} {runtime : SessionRuntime} {session : Session}
    {accepted : List Nat} {past : List Handling} {packet : SessionPacket} {host : Host}
    {endpoint : Endpoint} {given : List Bytes}
    (accounts : Accounts accepted past session.endpoint.decoder)
    (received : session.endpoint.receive rs host runtime.identity packet.frame =
      some (endpoint, given))
    (isNew : ∀ sequence ∈ session.freshSequences runtime (.packet packet host),
      sequence ∉ accepted)
    (keeps : runtime.identity.Owns packet.frame →
      KeepsGroup past session.endpoint.decoder host packet.frame) :
    Accounts (accepted ++ session.freshSequences runtime (.packet packet host))
      (past ++ (session.handlings rs runtime (.packet packet host) ++
        given.map Handling.output)) endpoint.decoder := by
  have subset : accepted ⊆ accepted ++ session.freshSequences runtime (.packet packet host) :=
    List.subset_append_left _ _
  unfold Endpoint.receive at received
  unfold handlings
  by_cases owns : runtime.identity.Owns packet.frame
  · rw [if_pos owns] at received
    dsimp only
    rw [if_pos owns]
    unfold Endpoint.accept at received
    split at received
    next isReport =>
      -- A loss report moves the window only.
      have notTaken : session.endpoint.decoder.taking host packet.frame = none := by
        apply if_neg
        rintro ⟨_, _, isData | isParity, _⟩
        · exact absurd (isReport.1.symm.trans isData) (by decide)
        · exact absurd (isReport.1.symm.trans isParity) (by decide)
      have nothing : session.endpoint.decoder.handling rs host packet.frame = [] := by
        unfold Decoder.handling Decoder.releases
        rw [notTaken, if_neg fun impossible => Bool.false_ne_true impossible.1]
        rfl
      have observed := accounts.of_sameStores
        (Decoder.observeSeq_sameStores session.endpoint.decoder packet.frame.sequence) subset
      rw [nothing]
      dsimp only at received
      split at received
      · cases received
        rw [List.map_nil, List.append_nil, List.append_nil]
        exact observed
      · cases received
        rw [List.map_nil, List.append_nil, List.append_nil]
        exact observed
    next =>
      obtain ⟨⟨decoder, result⟩, decoded, isNext⟩ := Option.map_eq_some_iff.mp received
      cases isNext
      refine accounts.frame decoded subset ?_ (keeps owns)
      intro taken
      obtain ⟨group, isTaken⟩ := Option.isSome_iff_exists.mp taken
      have accepts : session.Accepts runtime packet :=
        ⟨owns, (Decoder.taking_eq_some isTaken).1⟩
      rw [freshSequences_packet, if_pos accepts] at isNew ⊢
      exact ⟨isNew _ (List.mem_singleton_self _),
        List.mem_append_right _ (List.mem_singleton_self _)⟩
  · rw [if_neg owns] at received
    cases received
    dsimp only
    rw [if_neg owns, List.map_nil, List.append_nil, List.append_nil]
    exact accounts.of_sameStores ⟨rfl, rfl, rfl⟩ subset

/-- A round without a packet. -/
theorem accounts_quiet {rs : ReedSolomon} {runtime : SessionRuntime} {session : Session}
    {accepted : List Nat} {past : List Handling} {decoder : Decoder} {event : SessionEvent}
    {outputs : List SessionOutput} (accounts : Accounts accepted past decoder)
    (noPacket : ∀ packet host, event ≠ .packet packet host) (silent : forwarded outputs = []) :
    Accounts (accepted ++ session.freshSequences runtime event)
      (past ++ (session.handlings rs runtime event ++ (forwarded outputs).map Handling.output))
      decoder := by
  have nothing : session.freshSequences runtime event = [] ∧
      session.handlings rs runtime event = [] := by
    cases event with
    | packet packet host => exact absurd rfl (noPacket packet host)
    | _ => exact ⟨rfl, rfl⟩
  rw [nothing.1, nothing.2, silent, List.map_nil, List.append_nil, List.append_nil, List.append_nil]
  exact accounts

/-- One round of a worker. -/
theorem accounts_step {rs : ReedSolomon} {runtime : SessionRuntime} {session next : Session}
    {accepted : List Nat} {past : List Handling} {event : SessionEvent}
    {outputs : List SessionOutput}
    (accounts : Accounts accepted past session.endpoint.decoder)
    (stepped : session.step rs runtime event = some (next, outputs))
    (isNew : ∀ sequence ∈ session.freshSequences runtime event, sequence ∉ accepted)
    (keeps : ∀ packet host, event = .packet packet host → runtime.identity.Owns packet.frame →
      KeepsGroup past session.endpoint.decoder host packet.frame) :
    Accounts (accepted ++ session.freshSequences runtime event)
      (past ++ (session.handlings rs runtime event ++ (forwarded outputs).map Handling.output))
      next.endpoint.decoder := by
  cases step_cases stepped with
  | packet received =>
      rw [forwarded_upstream]
      exact accounts_packet accounts received isNew (keeps _ _ rfl)
  | upstream isPeer =>
      exact accounts_quiet accounts (fun _ _ => nofun) (forwarded_sendFrames _ _)
  | report isPeer reported =>
      obtain ⟨⟨decoder, sample⟩, isSample, isEndpoint⟩ := Option.map_eq_some_iff.mp reported
      cases isEndpoint
      have kept := accounts.of_sameStores (Decoder.sequenceReport_sameStores isSample)
        (List.Subset.refl _)
      exact accounts_quiet kept (fun _ _ => nofun) (forwarded_sendFrames _ _)
  | flush isPeer =>
      exact accounts_quiet accounts (fun _ _ => nofun) (forwarded_sendFrames _ _)
  | idle noPacket => exact accounts_quiet accounts noPacket rfl

end Session

/-! ### Runs -/

/-- The session, the frame and the decoder of a round that gives a frame to its decoder. -/
def ServerEvent.decoded? (sessions : Sessions) :
    ServerEvent → Option (SessionKey × Decoder × Host × Frame)
  | .worker id (.packet host) =>
    match sessions.lookup id with
    | some ⟨runtime, packet :: _, _, .running session⟩ =>
      if runtime.identity.Owns packet.frame then
        some (id, session.endpoint.decoder, host, packet.frame)
      else none
    | _ => none
  | _ => none

/-- No round of the run opens a redundant group again that took a shard before, in this life
of its session or in an earlier one. -/
def KeepsGroups (build : Build) (config : ServerConfig) (events : List ServerEvent) : Prop :=
  Along (tracedStep build config) ∅ (fun sessions trace event =>
    ∀ round ∈ event.decoded? sessions,
      KeepsGroup (handlingsOf round.1 trace) round.2.1 round.2.2.1 round.2.2.2) events

instance (build : Build) (config : ServerConfig) (events : List ServerEvent) :
    Decidable (KeepsGroups build config events) :=
  inferInstanceAs (Decidable (Along _ _ _ _))

/-- The account of every session holds, for the worker it has and for one that starts. -/
structure RunAccounts (trace : List Observation) (sessions : Sessions) : Prop where
  history : ∀ id, Accounts (acceptedBy id trace) (handlingsOf id trace) (Decoder.new id.2)
  running : ∀ id entry session, sessions.lookup id = some entry → entry.task = .running session →
    Accounts (acceptedBy id trace) (handlingsOf id trace) session.endpoint.decoder

theorem accounts_empty : RunAccounts [] ∅ where
  history := fun id => Accounts.new id.2
  running := by intro id entry session found; cases found

namespace RunAccounts

variable {trace happened : List Observation} {sessions next : Sessions}

/-- A step in which no worker does anything: a running worker was there before, or starts. -/
theorem quiet (accounts : RunAccounts trace sessions)
    (nothing : ∀ id, handlingsOf id happened = [] ∧ acceptedBy id happened = [])
    (tasks : ∀ id entry session, next.lookup id = some entry → entry.task = .running session →
      (∃ old, sessions.lookup id = some old ∧ old.task = .running session) ∨
        session.endpoint.decoder = Decoder.new session.endpoint.decoder.session) :
    RunAccounts (trace ++ happened) next where
  history := by
    intro id
    rw [acceptedBy_append, handlingsOf_append, (nothing id).1, (nothing id).2, List.append_nil,
      List.append_nil]
    exact accounts.history id
  running := by
    intro id entry session found isRunning
    rw [acceptedBy_append, handlingsOf_append, (nothing id).1, (nothing id).2, List.append_nil,
      List.append_nil]
    rcases tasks id entry session found isRunning with ⟨old, isOld, wasRunning⟩ | isNew
    · exact accounts.running id old session isOld wasRunning
    · rw [isNew]
      exact (accounts.history id).restart _

/-- A packet that arrives starts no worker and changes none. -/
theorem running_of_receive {config : ServerConfig} (sound : Sound config sessions)
    (packet : SessionPacket) (isV3 : packet.frame.version = versionV3) (deviceKey : Bytes)
    (now : Nat) {id : SessionKey} {entry : SessionEntry} {session : Session}
    (found : (receive config sessions packet deviceKey now).lookup id = some entry)
    (isRunning : entry.task = .running session) :
    ∃ old, sessions.lookup id = some old ∧ old.task = .running session := by
  have delivered : ∀ middle : Sessions, (deliver middle packet now).lookup id = some entry →
      ∃ old, middle.lookup id = some old ∧ old.task = .running session := by
    intro middle isEntry
    rw [lookup_deliver] at isEntry
    split at isEntry
    next =>
      obtain ⟨old, isOld, rfl⟩ := Option.map_eq_some_iff.mp isEntry
      exact ⟨old, isOld, isRunning⟩
    next => exact ⟨entry, isEntry, isRunning⟩
  unfold receive at found
  split at found
  next => exact delivered sessions found
  next unknown =>
    obtain ⟨old, isOld, wasRunning⟩ := delivered _ found
    rcases openSession_cases sound.size isV3 unknown deviceKey now with
      ⟨_, same⟩ | ⟨_, installs⟩
    · rw [same] at isOld
      exact ⟨old, isOld, wasRunning⟩
    · -- The new session has no running worker, and the sessions of its device are gone.
      rw [installs.lookup] at isOld
      split at isOld
      next =>
        cases isOld
        cases wasRunning
      next =>
        split at isOld
        next => cases isOld
        next => exact ⟨old, isOld, wasRunning⟩

/-- A round of a worker that accepts only new frames and opens no redundant group again. -/
theorem round (accounts : RunAccounts trace sessions) {rs : ReedSolomon} {id : SessionKey}
    {entry : SessionEntry} {session after : Session} {sessionEvent : SessionEvent}
    {queue : List SessionPacket} {lastSeen : Nat} {emitted : List SessionOutput}
    (found : sessions.lookup id = some entry) (isRunning : entry.task = .running session)
    (stepped : session.step rs entry.runtime sessionEvent = some (after, emitted))
    (isNew : ∀ sequence ∈ session.freshSequences entry.runtime sessionEvent,
      (id, sequence) ∉ acceptedFrames trace)
    (keeps : ∀ packet host, sessionEvent = .packet packet host →
      entry.runtime.identity.Owns packet.frame →
      KeepsGroup (handlingsOf id trace) session.endpoint.decoder host packet.frame) :
    RunAccounts
      (trace ++ ((session.freshSequences entry.runtime sessionEvent).map
        (Observation.accepted id) ++ (session.handlings rs entry.runtime sessionEvent ++
          (forwarded emitted).map Handling.output).map (Observation.handled id)))
      (sessions.insert id { entry with queue, lastSeen, task := .running after }) := by
  have here := Session.accounts_step (accounts.running id entry session found isRunning) stepped
    (fun sequence member inPast => isNew sequence member (mem_acceptedBy.mp inPast)) keeps
  generalize session.freshSequences entry.runtime sessionEvent = fresh at *
  generalize session.handlings rs entry.runtime sessionEvent ++
    (forwarded emitted).map Handling.output = handled at *
  have same : ∀ other, handlingsOf other (trace ++ (fresh.map (Observation.accepted id) ++
      handled.map (Observation.handled id))) =
        handlingsOf other trace ++ (if id = other then handled else []) ∧
      acceptedBy other (trace ++ (fresh.map (Observation.accepted id) ++
        handled.map (Observation.handled id))) =
        acceptedBy other trace ++ (if id = other then fresh else []) := by
    intro other
    rw [handlingsOf_append, handlingsOf_append, acceptedBy_append, acceptedBy_append,
      (of_accepted other id fresh).1, (of_accepted other id fresh).2, (of_handled other id handled).1,
      (of_handled other id handled).2, List.nil_append, List.append_nil]
    exact ⟨rfl, rfl⟩
  refine ⟨?_, ?_⟩
  · intro other
    rw [(same other).1, (same other).2]
    by_cases isId : id = other
    · subst isId
      rw [if_pos rfl, if_pos rfl]
      exact here.restart _
    · rw [if_neg isId, if_neg isId, List.append_nil, List.append_nil]
      exact accounts.history other
  · intro other changed running isChanged isNext
    rw [(same other).1, (same other).2]
    rcases Table.of_lookup_insert isChanged with ⟨rfl, rfl⟩ | ⟨different, old⟩
    · cases isNext
      rw [if_pos rfl, if_pos rfl]
      exact here
    · have others : id ≠ other := fun equal => different equal.symm
      rw [if_neg others, if_neg others, List.append_nil, List.append_nil]
      exact accounts.running other changed running old isNext

end RunAccounts

/-- A step in which no worker accepts, hands over or forwards anything. -/
theorem RunAccounts.step_quiet {build : Build} {trace : List Observation}
    {sessions next : Sessions} {event : ServerEvent} (accounts : RunAccounts trace sessions)
    (noFrame : freshFrames sessions event = []) (noHandling : handlings build.rs sessions event = [])
    (tasks : ∀ id entry session, next.lookup id = some entry → entry.task = .running session →
      (∃ old, sessions.lookup id = some old ∧ old.task = .running session) ∨
        session.endpoint.decoder = Decoder.new session.endpoint.decoder.session) :
    RunAccounts (trace ++ ((newSessions sessions next).map Observation.opened ++
      (freshFrames sessions event).map (fun fresh => Observation.accepted fresh.1 fresh.2) ++
      (handlings build.rs sessions event ++ forwards []).map fun handled =>
        Observation.handled handled.1 handled.2)) next := by
  rw [noFrame, noHandling]
  refine accounts.quiet ?_ tasks
  intro id
  have nothing : forwards [] = [] := rfl
  rw [nothing, List.append_nil, List.map_nil, List.map_nil, List.append_nil, List.append_nil]
  exact of_opened id _

/-- A worker takes the first packet of its queue. -/
theorem packet_of_resolve {entry : SessionEntry} {session : Session} {event : WorkerEvent}
    {packet : SessionPacket} {host : Host} {queue : List SessionPacket} {lastSeen : Nat}
    (resolved : event.resolve entry session = some (.packet packet host, queue, lastSeen)) :
    event = .packet host ∧ entry.queue = packet :: queue := by
  cases event with
  | packet reading =>
      unfold WorkerEvent.resolve at resolved
      dsimp only at resolved
      split at resolved
      next => cases resolved
      next first rest isQueue =>
        cases resolved
        exact ⟨rfl, isQueue⟩
  | upstream received now => cases resolved
  | reportTick => cases resolved
  | flushTick => cases resolved

/-- One step of the server. -/
theorem RunAccounts.step {build : Build} {config : ServerConfig} {trace happened : List Observation}
    {sessions next : Sessions} {event : ServerEvent} (accounts : RunAccounts trace sessions)
    (sound : Sound config sessions)
    (stepped : tracedStep build config sessions event = some (next, happened))
    (once : (acceptedFrames (trace ++ happened)).Nodup)
    (keeps : ∀ round ∈ event.decoded? sessions,
      KeepsGroup (handlingsOf round.1 trace) round.2.1 round.2.2.1 round.2.2.2) :
    RunAccounts (trace ++ happened) next := by
  obtain ⟨outputs, isStep, rfl⟩ := tracedStep_spec stepped
  cases event with
  | received bytes peer now =>
      unfold serverStep at isStep
      dsimp only at isStep
      split at isStep
      next =>
        cases isStep
        exact accounts.step_quiet rfl rfl fun id entry session found isRunning =>
          Or.inl ⟨entry, found, isRunning⟩
      next frame deviceKey opened =>
        cases isStep
        have isV3 := (decodeServerFrame_opens opened).2.2
        exact accounts.step_quiet rfl rfl fun id entry session found isRunning =>
          Or.inl (running_of_receive sound ⟨frame, peer⟩ isV3 deviceKey now found
            isRunning)
  | cleanup now =>
      cases isStep
      exact accounts.step_quiet rfl rfl fun id entry session found isRunning =>
        Or.inl ⟨entry, Table.lookup_of_lookup_eraseAll found, isRunning⟩
  | bind id bound =>
      unfold serverStep at isStep
      dsimp only at isStep
      split at isStep
      next runtime queue lastSeen isSpawned =>
        cases isStep
        refine accounts.step_quiet rfl rfl ?_
        intro other entry session found isRunning
        rcases Table.of_lookup_insert found with ⟨rfl, rfl⟩ | ⟨_, old⟩
        · cases bound with
          | true =>
              cases isRunning
              exact Or.inr rfl
          | false => cases isRunning
        · exact Or.inl ⟨entry, old, isRunning⟩
      next =>
        cases isStep
        exact accounts.step_quiet rfl rfl fun id entry session found isRunning =>
          Or.inl ⟨entry, found, isRunning⟩
  | worker id event =>
      rcases workerEvent_cases isStep with ⟨rfl, rfl, noFrame, noHandling⟩ |
        ⟨entry, session, after, sessionEvent, queue, lastSeen, emitted, found, isRunning, resolved,
          isRound, rfl, rfl, isFresh, isHandling⟩
      · exact accounts.step_quiet noFrame noHandling fun id entry session found isRunning =>
          Or.inl ⟨entry, found, isRunning⟩
      · have inTable : id ∈ sessions := Table.mem_iff_exists_lookup.mpr ⟨entry, found⟩
        have noneNew := newSessions_eq_nil fun other =>
          ((Keeps.insert inTable { entry with queue, lastSeen, task := .running after }).mem_iff
            other).mp
        rw [noneNew, isFresh, isHandling, forwards_eq, ← List.map_append, List.map_nil,
          List.nil_append, List.map_map, List.map_map] at once ⊢
        refine accounts.round found isRunning isRound ?_ ?_
        · intro sequence member inPast
          rw [acceptedFrames_append, List.nodup_append] at once
          refine once.2.2 _ inPast _ ?_ rfl
          rw [acceptedFrames_append]
          refine List.mem_append_left _ (List.mem_filterMap.mpr ⟨_, List.mem_map_of_mem member, rfl⟩)
        · rintro packet host rfl owns
          obtain ⟨rfl, isQueue⟩ := packet_of_resolve resolved
          refine keeps (id, session.endpoint.decoder, host, packet.frame) ?_
          obtain ⟨runtime, whole, seen, task⟩ := entry
          cases isRunning
          cases isQueue
          simp only [ServerEvent.decoded?, found]
          rw [if_pos owns]
          rfl

/-- What the server sends to the upstream of a session, in all its lives. -/
def upstreamOf (id : SessionKey) (outputs : List ServerOutput) : List Bytes :=
  outputs.filterMap fun output =>
    match output.2 with
    | .upstream datagram => if output.1 = id then some datagram else none
    | .toPeer _ _ => none

theorem upstreamOf_append (id : SessionKey) (front back : List ServerOutput) :
    upstreamOf id (front ++ back) = upstreamOf id front ++ upstreamOf id back :=
  List.filterMap_append

theorem upstreamOf_round (id other : SessionKey) (emitted : List SessionOutput) :
    upstreamOf id (emitted.map fun output => (other, output)) =
      if other = id then forwarded emitted else [] := by
  unfold upstreamOf forwarded
  rw [List.filterMap_map]
  split
  next same =>
    subst same
    apply List.filterMap_congr
    intro output _
    cases output with
    | upstream datagram => exact if_pos rfl
    | toPeer peer frame => rfl
  next different =>
    apply List.filterMap_eq_nil_iff.mpr
    intro output _
    cases output with
    | upstream datagram => exact if_neg different
    | toPeer peer frame => rfl

theorem Session.outputsOf_handlings (rs : ReedSolomon) (runtime : SessionRuntime)
    (session : Session) (event : SessionEvent) :
    outputsOf (session.handlings rs runtime event) = [] := by
  cases event with
  | packet packet host =>
      unfold handlings
      dsimp only
      split
      · exact outputsOf_handling rs host _ _
      · rfl
  | _ => rfl

/-- The trace of a step lists what the step sends to the upstream. -/
theorem outputsOf_step {build : Build} {config : ServerConfig} {sessions next : Sessions}
    {event : ServerEvent} {happened : List Observation}
    (stepped : tracedStep build config sessions event = some (next, happened)) :
    ∃ outputs, serverStep build config sessions event = some (next, outputs) ∧
      ∀ id, outputsOf (handlingsOf id happened) = upstreamOf id outputs := by
  obtain ⟨outputs, isStep, rfl⟩ := tracedStep_spec stepped
  refine ⟨outputs, isStep, ?_⟩
  intro id
  have quiet : outputs = [] → freshFrames sessions event = [] →
      handlings build.rs sessions event = [] →
      outputsOf (handlingsOf id ((newSessions sessions next).map Observation.opened ++
        (freshFrames sessions event).map (fun fresh => Observation.accepted fresh.1 fresh.2) ++
        (handlings build.rs sessions event ++ forwards outputs).map fun handled =>
          Observation.handled handled.1 handled.2)) = upstreamOf id outputs := by
    intro noOutput noFrame noHandling
    have nothing : forwards [] = [] := rfl
    rw [noOutput, noFrame, noHandling, nothing, List.append_nil, List.map_nil, List.map_nil,
      List.append_nil, List.append_nil, (of_opened id _).1]
    rfl
  cases event with
  | received bytes peer now =>
      unfold serverStep at isStep
      dsimp only at isStep
      split at isStep <;> cases isStep <;> exact quiet rfl rfl rfl
  | cleanup now =>
      cases isStep
      exact quiet rfl rfl rfl
  | bind other bound =>
      unfold serverStep at isStep
      dsimp only at isStep
      split at isStep <;> cases isStep <;> exact quiet rfl rfl rfl
  | worker other event =>
      rcases workerEvent_cases isStep with ⟨_, noOutput, noFrame, noHandling⟩ |
        ⟨entry, session, after, sessionEvent, queue, lastSeen, emitted, _, _, _, _, _, isOutputs,
          isFresh, isHandling⟩
      · exact quiet noOutput noFrame noHandling
      · rw [isFresh, isHandling, isOutputs, forwards_eq, ← List.map_append, List.map_map,
          List.map_map, handlingsOf_append, handlingsOf_append, (of_opened id _).1,
          show (fun fresh : SessionKey × Nat => Observation.accepted fresh.1 fresh.2) ∘
            (fun sequence => (other, sequence)) = Observation.accepted other from rfl,
          show (fun handled : SessionKey × Handling => Observation.handled handled.1 handled.2) ∘
            (fun handling => (other, handling)) = Observation.handled other from rfl,
          (of_accepted id other _).1, (of_handled id other _).1, List.nil_append, List.nil_append,
          upstreamOf_round]
        split
        · rw [Fec.outputsOf_append, Session.outputsOf_handlings, outputsOf_outputs, List.nil_append]
        · rfl

theorem outputsOf_run {build : Build} {config : ServerConfig} {sessions : Sessions}
    {events : List ServerEvent} {trace : List Observation}
    (ran : run (tracedStep build config) ∅ events = some (sessions, trace)) :
    ∃ outputs, run (serverStep build config) ∅ events = some (sessions, outputs) ∧
      ∀ id, outputsOf (handlingsOf id trace) = upstreamOf id outputs := by
  refine run_invariant ran (fun past trace sessions => ∃ outputs,
    run (serverStep build config) ∅ past = some (sessions, outputs) ∧
      ∀ id, outputsOf (handlingsOf id trace) = upstreamOf id outputs)
    ⟨[], rfl, fun _ => rfl⟩ ?_
  rintro past event trace sessions next happened _ _ stepped ⟨outputs, ranPast, same⟩
  obtain ⟨emitted, isStep, sameNow⟩ := outputsOf_step stepped
  refine ⟨outputs ++ emitted, run_snoc ranPast isStep, ?_⟩
  intro id
  rw [handlingsOf_append, Fec.outputsOf_append, same, sameNow, upstreamOf_append]

theorem accounts_of_run {build : Build} {config : ServerConfig} {events : List ServerEvent}
    (meets : RepeatsMeetMemory build config events) (keeps : KeepsGroups build config events)
    {sessions : Sessions} {trace : List Observation}
    (ran : run (tracedStep build config) ∅ events = some (sessions, trace)) :
    RunAccounts trace sessions := by
  refine run_invariant ran (fun _ trace sessions => RunAccounts trace sessions) accounts_empty ?_
  intro past event trace sessions next happened isPrefix ranPast stepped accounts
  have before := recalls_of_run meets ((List.prefix_append _ _).trans isPrefix) ranPast
  have after := recalls_of_run meets isPrefix (run_snoc ranPast stepped)
  exact accounts.step before.sound stepped after.once
    (keeps past event sessions trace isPrefix ranPast)

/-- In every run in which each repeated frame meets the session that accepted it or
does not open its session again, and in which no redundant group is opened again, no
frame is accepted twice; no source, a frame or a place in a redundant group, gives its
shard twice; and what goes to the upstream of a session is put together of these
shards, each used at most once. -/
theorem anti_replay (build : Build) (config : ServerConfig) (events : List ServerEvent)
    (meets : RepeatsMeetMemory build config events) (keeps : KeepsGroups build config events)
    (sessions : Sessions) (trace : List Observation)
    (ran : run (tracedStep build config) ∅ events = some (sessions, trace)) :
    (acceptedFrames trace).Nodup ∧
      ∃ outputs, run (serverStep build config) ∅ events = some (sessions, outputs) ∧
        ∀ id, (sourcesOf (handlingsOf id trace)).Nodup ∧
          Assembled ((releasesOf (handlingsOf id trace)).map Release.shard)
            (upstreamOf id outputs) := by
  obtain ⟨outputs, ranServer, same⟩ := outputsOf_run ran
  have accounts := accounts_of_run meets keeps ran
  refine ⟨(recalls_of_run meets List.prefix_rfl ran).once, outputs, ranServer, ?_⟩
  intro id
  rw [← same id]
  exact ⟨(accounts.history id).distinct, (accounts.history id).assembling.assembled⟩

/-! ### Replays and repair frames -/

/-- The arrival of a sealed frame. -/
def dataArrival (byte : UInt8) (frame : Frame) (now : Nat) : ServerEvent :=
  .received (sealedData byte frame) Session.clientAddress now

/-- The worker of session 100 takes the next frame of its queue. -/
def dataRound (now : Nat) : ServerEvent := .worker (7, 100) (.packet (Host.at now))

/-- The frame arrives and is taken; ten seconds later its session expires, and a second after
that a copy of the datagram arrives. -/
def replayEvents : List ServerEvent :=
  [dataArrival 4 dataFrame 0, .bind (7, 100) true, dataRound 0, .cleanup 10_000_000_000,
    dataArrival 4 dataFrame 11_000_000_000, .bind (7, 100) true, dataRound 11_000_000_000]

/-- The copy is accepted again and its datagram goes to the upstream a second time. -/
theorem replay_after_expiry :
    ∃ sessions trace last outputs,
      run (tracedStep dataBuild sampleConfig) ∅ replayEvents = some (sessions, trace) ∧
      run (serverStep dataBuild sampleConfig) ∅ replayEvents = some (last, outputs) ∧
      acceptedFrames trace = [((7, 100), 1), ((7, 100), 1)] ∧
      outputs = [((7, 100), .upstream [1, 2, 3]), ((7, 100), .upstream [1, 2, 3])] ∧
      ¬ (acceptedFrames trace).Nodup := by
  have traced : (run (tracedStep dataBuild sampleConfig) ∅ replayEvents).map
      (fun result => acceptedFrames result.2) = some [((7, 100), 1), ((7, 100), 1)] := by
    decide +kernel
  have forwarded : (run (serverStep dataBuild sampleConfig) ∅ replayEvents).map Prod.snd =
      some [((7, 100), .upstream [1, 2, 3]), ((7, 100), .upstream [1, 2, 3])] := by
    decide +kernel
  obtain ⟨⟨sessions, trace⟩, ranTraced, isAccepted⟩ := Option.map_eq_some_iff.mp traced
  obtain ⟨⟨last, outputs⟩, ran, isOutputs⟩ := Option.map_eq_some_iff.mp forwarded
  refine ⟨sessions, trace, last, outputs, ranTraced, ran, isAccepted, isOutputs, ?_⟩
  rw [show acceptedFrames trace = _ from isAccepted]
  decide

/-- The data frame of a redundant group arrives, and its repair frame three seconds later. -/
def repairEvents : List ServerEvent :=
  [dataArrival 5 (redundantFrame 0) 0, .bind (7, 100) true, dataRound 0,
    dataArrival 6 (redundantFrame 1) 3_000_000_000, dataRound 3_000_000_000]

/-- No frame is repeated, and the datagram goes to the upstream a second time: the place of
the data frame is handed over again. -/
theorem repair_after_expiry :
    RepeatsMeetMemory dataBuild sampleConfig repairEvents ∧
      ¬ KeepsGroups dataBuild sampleConfig repairEvents ∧
      (run (serverStep dataBuild sampleConfig) ∅ repairEvents).map Prod.snd =
        some [((7, 100), .upstream [1, 2, 3]), ((7, 100), .upstream [1, 2, 3])] ∧
      (run (tracedStep dataBuild sampleConfig) ∅ repairEvents).map
        (fun result => sourcesOf (handlingsOf (7, 100) result.2)) =
          some [.place 1 0, .place 1 0] := by
  refine ⟨?_, ?_, ?_, ?_⟩ <;> decide +kernel

/-- The data frame arrives twice, and its repair frame within a second. -/
def promptEvents : List ServerEvent :=
  [dataArrival 5 (redundantFrame 0) 0, .bind (7, 100) true, dataRound 0,
    dataArrival 5 (redundantFrame 0) 500_000_000, dataRound 500_000_000,
    dataArrival 6 (redundantFrame 1) 1_000_000_000, dataRound 1_000_000_000]

/-- Neither the copy nor the repair frame gives anything. -/
theorem anti_replay_within_session :
    ∃ sessions trace outputs,
      run (tracedStep dataBuild sampleConfig) ∅ promptEvents = some (sessions, trace) ∧
      run (serverStep dataBuild sampleConfig) ∅ promptEvents = some (sessions, outputs) ∧
      acceptedFrames trace = [((7, 100), 1), ((7, 100), 2)] ∧
      upstreamOf (7, 100) outputs = [[1, 2, 3]] ∧ (acceptedFrames trace).Nodup ∧
      (sourcesOf (handlingsOf (7, 100) trace)).Nodup ∧
      Assembled ((releasesOf (handlingsOf (7, 100) trace)).map Release.shard)
        (upstreamOf (7, 100) outputs) := by
  have traced : (run (tracedStep dataBuild sampleConfig) ∅ promptEvents).map
      (fun result => acceptedFrames result.2) = some [((7, 100), 1), ((7, 100), 2)] := by
    decide +kernel
  have forwarded : (run (serverStep dataBuild sampleConfig) ∅ promptEvents).map
      (fun result => upstreamOf (7, 100) result.2) = some [[1, 2, 3]] := by
    decide +kernel
  obtain ⟨⟨sessions, trace⟩, ran, isAccepted⟩ := Option.map_eq_some_iff.mp traced
  obtain ⟨once, outputs, ranServer, accounts⟩ := anti_replay dataBuild sampleConfig promptEvents
    (by decide +kernel) (by decide +kernel) sessions trace ran
  rw [ranServer] at forwarded
  exact ⟨sessions, trace, outputs, ran, ranServer, isAccepted, Option.some.inj forwarded, once,
    accounts (7, 100)⟩

end SmartFecTunnel.Tunnel
