import SmartFecTunnel.Fec.Provenance
import SmartFecTunnel.Tunnel.Server

/-!
Contract: how often the server accepts a frame over a whole run.

The memory of accepted sequence numbers lives in the worker of a session.  It
goes when the session leaves the table, and a frame that opens the session again
starts with an empty one.

Owns:
- `tracedStep`, a step of the server with what happens in it;
- every sequence number of a session is accepted at most once, as long as a
  repeated frame finds the session that accepted it or does not open its session
  again.

Does not own: the window of one decoder, nor what the accepted frames carry.
-/

namespace SmartFecTunnel.Tunnel

open SmartFecTunnel.Library
open SmartFecTunnel.Fec
open SmartFecTunnel.Wire

/-! ### One round of a worker -/

namespace Session

/-- The sequence number that `observe_seq` accepts in this round. -/
def freshSequences (runtime : SessionRuntime) (session : Session) : SessionEvent → List Nat
  | .packet packet _ =>
    if session.Accepts runtime packet then [packet.frame.sequence] else []
  | _ => []

/-- The decoder belongs to the session and has accepted these sequence numbers. -/
structure Recalls (runtime : SessionRuntime) (accepted : List Nat) (session : Session) : Prop where
  ownSession : session.endpoint.decoder.session = runtime.identity.session
  window : Decoder.Window accepted session.endpoint.decoder

theorem recalls_start (runtime : SessionRuntime) (hook : Option Nat) :
    Recalls runtime [] (start runtime hook) :=
  ⟨rfl, Decoder.window_new _⟩

/-- The frame of a packet moves the window as `observe_seq` does, and gives nothing to
the upstream unless it is accepted. -/
theorem accept_window {rs : ReedSolomon} {host : Host} {endpoint next : Endpoint} {frame : Frame}
    {outputs : List Bytes} (accepted : endpoint.accept rs host frame = some (next, outputs))
    (isSession : endpoint.decoder.session = frame.session) :
    Decoder.SameWindow next.decoder (endpoint.decoder.observeSeq frame.sequence).1 ∧
      ((endpoint.decoder.observeSeq frame.sequence).2 = false → outputs = []) := by
  unfold Endpoint.accept at accepted
  split at accepted
  next =>
    dsimp only at accepted
    split at accepted
    · cases accepted
      exact ⟨Decoder.SameWindow.refl _, fun _ => rfl⟩
    · cases accepted
      exact ⟨Decoder.SameWindow.refl _, fun _ => rfl⟩
  next =>
    obtain ⟨⟨decoder, result⟩, decoded, isNext⟩ := Option.map_eq_some_iff.mp accepted
    cases isNext
    refine ⟨Decoder.frame_sameWindow decoded isSession, ?_⟩
    intro refused
    rw [Decoder.frame_refused decoded isSession refused]
    rfl

theorem freshSequences_packet (runtime : SessionRuntime) (session : Session)
    (packet : SessionPacket) (host : Host) :
    session.freshSequences runtime (.packet packet host) =
      if session.Accepts runtime packet then [packet.frame.sequence] else [] := rfl

/-- A packet round: the accepted sequence number is new and is remembered. -/
theorem Recalls.packet {rs : ReedSolomon} {runtime : SessionRuntime} {session next : Session}
    {accepted : List Nat} {packet : SessionPacket} {host : Host} {outputs : List SessionOutput}
    (recalls : Recalls runtime accepted session)
    (stepped : session.step rs runtime (.packet packet host) = some (next, outputs)) :
    Recalls runtime (accepted ++ session.freshSequences runtime (.packet packet host)) next ∧
      (∀ seq ∈ session.freshSequences runtime (.packet packet host), seq ∉ accepted) ∧
      (session.freshSequences runtime (.packet packet host) = [] → outputs = []) := by
  obtain ⟨⟨endpoint, datagrams⟩, received, isNext⟩ := Option.map_eq_some_iff.mp stepped
  cases isNext
  unfold Endpoint.receive at received
  rw [freshSequences_packet]
  by_cases owns : runtime.identity.Owns packet.frame
  · rw [if_pos owns] at received
    have isSession : session.endpoint.decoder.session = packet.frame.session :=
      recalls.ownSession.trans owns.2.2.symm
    obtain ⟨same, silent⟩ := accept_window received isSession
    obtain ⟨isNew, window⟩ := recalls.window.observe packet.frame.sequence
    have nextSession : endpoint.decoder.session = runtime.identity.session :=
      (same.session.trans (Decoder.observeSeq_sameStores _ _).session).trans recalls.ownSession
    cases observed : (session.endpoint.decoder.observeSeq packet.frame.sequence).2 with
    | true =>
        have accepts : session.Accepts runtime packet := ⟨owns, observed⟩
        rw [observed, if_pos rfl] at window
        rw [if_pos accepts]
        refine ⟨⟨nextSession, window.of_sameWindow same⟩, ?_, fun impossible => by cases impossible⟩
        intro seq member
        rw [List.mem_singleton.mp member]
        exact isNew observed
    | false =>
        have refuses : ¬ session.Accepts runtime packet := by
          rintro ⟨_, fresh⟩
          rw [observed] at fresh
          cases fresh
        rw [observed, if_neg Bool.false_ne_true] at window
        rw [if_neg refuses, List.append_nil]
        refine ⟨⟨nextSession, window.of_sameWindow same⟩, by simp, ?_⟩
        intro _
        rw [silent observed]
        rfl
  · rw [if_neg owns] at received
    cases received
    have refuses : ¬ session.Accepts runtime packet := fun accepts => owns accepts.1
    rw [if_neg refuses, List.append_nil]
    exact ⟨⟨recalls.ownSession, recalls.window⟩, by simp, fun _ => rfl⟩

theorem upstream_notMem_sendFrames (peer : SocketAddr) (frames : List Frame) (datagram : Bytes) :
    SessionOutput.upstream datagram ∉ sendFrames peer frames := by
  intro member
  obtain ⟨frame, _, isOutput⟩ := List.mem_map.mp member
  cases isOutput

/-- A round without a packet accepts nothing. -/
theorem Recalls.tick {runtime : SessionRuntime} {session next : Session} {accepted : List Nat}
    {event : SessionEvent} {outputs : List SessionOutput}
    (recalls : Recalls runtime accepted session)
    (noPacket : ∀ packet host, event ≠ .packet packet host)
    (sameSession : next.endpoint.decoder.session = session.endpoint.decoder.session)
    (window : Decoder.Window accepted next.endpoint.decoder)
    (silent : ∀ datagram, SessionOutput.upstream datagram ∉ outputs) :
    Recalls runtime (accepted ++ session.freshSequences runtime event) next ∧
      (∀ seq ∈ session.freshSequences runtime event, seq ∉ accepted) ∧
      ∀ datagram, SessionOutput.upstream datagram ∈ outputs →
        session.freshSequences runtime event ≠ [] := by
  have noneFresh : session.freshSequences runtime event = [] := by
    cases event with
    | packet packet host => exact absurd rfl (noPacket packet host)
    | _ => rfl
  rw [noneFresh, List.append_nil]
  exact ⟨⟨sameSession.trans recalls.ownSession, window⟩,
    fun seq member => absurd member List.not_mem_nil,
    fun datagram member => absurd member (silent datagram)⟩

/-- One round of a worker: what it accepts is new and is remembered, and only a round
that accepts a frame gives anything to the upstream. -/
theorem Recalls.step {rs : ReedSolomon} {runtime : SessionRuntime} {session next : Session}
    {accepted : List Nat} {event : SessionEvent} {outputs : List SessionOutput}
    (recalls : Recalls runtime accepted session)
    (stepped : session.step rs runtime event = some (next, outputs)) :
    Recalls runtime (accepted ++ session.freshSequences runtime event) next ∧
      (∀ seq ∈ session.freshSequences runtime event, seq ∉ accepted) ∧
      ∀ datagram, SessionOutput.upstream datagram ∈ outputs →
        session.freshSequences runtime event ≠ [] := by
  cases step_cases stepped with
  | packet received =>
      obtain ⟨later, isNew, silent⟩ := recalls.packet stepped
      refine ⟨later, isNew, ?_⟩
      intro datagram member noneFresh
      rw [silent noneFresh] at member
      cases member
  | upstream isPeer =>
      exact recalls.tick (fun _ _ => nofun) rfl recalls.window (upstream_notMem_sendFrames _ _)
  | report isPeer reported =>
      obtain ⟨⟨decoder, sample⟩, isSample, isEndpoint⟩ := Option.map_eq_some_iff.mp reported
      cases isEndpoint
      exact recalls.tick (fun _ _ => nofun) (Decoder.sequenceReport_sameStores isSample).session
        (recalls.window.report isSample) (upstream_notMem_sendFrames _ _)
  | flush isPeer =>
      exact recalls.tick (fun _ _ => nofun) rfl recalls.window (upstream_notMem_sendFrames _ _)
  | idle noPacket =>
      exact recalls.tick noPacket rfl recalls.window fun _ => List.not_mem_nil

end Session

/-! ### What happens in a run -/

inductive Observation where
  /-- A session enters the table. -/
  | opened (id : SessionKey)
  /-- The decoder of a session accepts a frame with this sequence number. -/
  | accepted (id : SessionKey) (sequence : Nat)
  /-- What a session does with the frames it accepts, up to the upstream. -/
  | handled (id : SessionKey) (handling : Handling)
deriving DecidableEq, Repr

/-- The sessions that a step adds to the table. -/
def newSessions (sessions next : Sessions) : List SessionKey :=
  next.keys.filter fun id => id ∉ sessions

/-- The frame that a step makes a decoder accept. -/
def freshFrames (sessions : Sessions) : ServerEvent → List (SessionKey × Nat)
  | .worker id event =>
    match sessions.lookup id with
    | some ⟨runtime, queue, lastSeen, .running session⟩ =>
      match event.resolve ⟨runtime, queue, lastSeen, .running session⟩ session with
      | some (sessionEvent, _, _) =>
        (session.freshSequences runtime sessionEvent).map fun sequence => (id, sequence)
      | none => []
    | _ => []
  | _ => []

/-- What a round of a worker does before it puts anything out. -/
def Session.handlings (rs : ReedSolomon) (runtime : SessionRuntime) (session : Session) :
    SessionEvent → List Handling
  | .packet packet host =>
    if runtime.identity.Owns packet.frame then
      session.endpoint.decoder.handling rs host packet.frame
    else []
  | _ => []

/-- What a step makes a worker do before it puts anything out. -/
def handlings (rs : ReedSolomon) (sessions : Sessions) : ServerEvent → List (SessionKey × Handling)
  | .worker id event =>
    match sessions.lookup id with
    | some ⟨runtime, queue, lastSeen, .running session⟩ =>
      match event.resolve ⟨runtime, queue, lastSeen, .running session⟩ session with
      | some (sessionEvent, _, _) =>
        (session.handlings rs runtime sessionEvent).map fun handling => (id, handling)
      | none => []
    | _ => []
  | _ => []

/-- What goes to the upstream. -/
def forwards (outputs : List ServerOutput) : List (SessionKey × Handling) :=
  outputs.filterMap fun output =>
    match output.2 with
    | .upstream datagram => some (output.1, .output datagram)
    | .toPeer _ _ => none

/-- `serverStep` with what happens in it. -/
def tracedStep (build : Build) (config : ServerConfig) (sessions : Sessions)
    (event : ServerEvent) : Option (Sessions × List Observation) :=
  (serverStep build config sessions event).map fun result =>
    (result.1, (newSessions sessions result.1).map Observation.opened ++
      (freshFrames sessions event).map (fun fresh => Observation.accepted fresh.1 fresh.2) ++
      (handlings build.rs sessions event ++ forwards result.2).map fun handled =>
        Observation.handled handled.1 handled.2)

/-- Key id, session and sequence number of every accepted frame. -/
def acceptedFrames (trace : List Observation) : List (SessionKey × Nat) :=
  trace.filterMap fun
    | .accepted id sequence => some (id, sequence)
    | _ => none

/-- The sequence numbers accepted since the session was last opened. -/
def acceptedSince (id : SessionKey) (trace : List Observation) : List Nat :=
  trace.foldl
    (fun sequences => fun
      | .opened other => if other = id then [] else sequences
      | .accepted other sequence => if other = id then sequences ++ [sequence] else sequences
      | .handled _ _ => sequences)
    []

theorem acceptedFrames_append (front back : List Observation) :
    acceptedFrames (front ++ back) = acceptedFrames front ++ acceptedFrames back :=
  List.filterMap_append

theorem acceptedFrames_opened (trace : List Observation) (ids : List SessionKey) :
    acceptedFrames (trace ++ ids.map Observation.opened) = acceptedFrames trace := by
  rw [acceptedFrames_append]
  have none_ : acceptedFrames (ids.map Observation.opened) = [] := by
    unfold acceptedFrames
    rw [List.filterMap_eq_nil_iff]
    intro observation member
    obtain ⟨id, _, rfl⟩ := List.mem_map.mp member
    rfl
  rw [none_, List.append_nil]

theorem acceptedSince_snoc (id : SessionKey) (trace : List Observation) (observation : Observation) :
    acceptedSince id (trace ++ [observation]) =
      match observation with
      | .opened other => if other = id then [] else acceptedSince id trace
      | .accepted other sequence =>
        if other = id then acceptedSince id trace ++ [sequence] else acceptedSince id trace
      | .handled _ _ => acceptedSince id trace := by
  unfold acceptedSince
  rw [List.foldl_append]
  cases observation <;> rfl

theorem acceptedSince_opened (id : SessionKey) (trace : List Observation) (ids : List SessionKey) :
    acceptedSince id (trace ++ ids.map Observation.opened) =
      if id ∈ ids then [] else acceptedSince id trace := by
  induction ids using List.reverseRecOn with
  | nil => simp
  | append_singleton front other inductionHypothesis =>
      rw [List.map_append, ← List.append_assoc, List.map_singleton, acceptedSince_snoc]
      dsimp only
      rw [inductionHypothesis]
      by_cases same : other = id
      · simp [same]
      · have others : id ≠ other := fun equal => same equal.symm
        simp [same, others]

theorem acceptedFrames_accepted (trace : List Observation) (id : SessionKey) (sequences : List Nat) :
    acceptedFrames (trace ++ sequences.map (Observation.accepted id)) =
      acceptedFrames trace ++ sequences.map fun sequence => (id, sequence) := by
  rw [acceptedFrames_append]
  congr 1
  unfold acceptedFrames
  rw [List.filterMap_map]
  exact congrFun List.filterMap_eq_map sequences

theorem acceptedSince_accepted (id other : SessionKey) (trace : List Observation)
    (sequences : List Nat) :
    acceptedSince id (trace ++ sequences.map (Observation.accepted other)) =
      if other = id then acceptedSince id trace ++ sequences else acceptedSince id trace := by
  induction sequences using List.reverseRecOn with
  | nil => simp
  | append_singleton front sequence inductionHypothesis =>
      rw [List.map_append, ← List.append_assoc, List.map_singleton, acceptedSince_snoc]
      dsimp only
      rw [inductionHypothesis]
      by_cases same : other = id
      · simp [same]
      · simp [same]

theorem acceptedFrames_handled (trace : List Observation) (handled : List (SessionKey × Handling)) :
    acceptedFrames (trace ++ handled.map fun each => Observation.handled each.1 each.2) =
      acceptedFrames trace := by
  have none_ : acceptedFrames (handled.map fun each => Observation.handled each.1 each.2) = [] := by
    unfold acceptedFrames
    rw [List.filterMap_map]
    exact List.filterMap_eq_nil_iff.mpr fun _ _ => rfl
  rw [acceptedFrames_append, none_, List.append_nil]

theorem acceptedSince_handled (id : SessionKey) (trace : List Observation)
    (handled : List (SessionKey × Handling)) :
    acceptedSince id (trace ++ handled.map fun each => Observation.handled each.1 each.2) =
      acceptedSince id trace := by
  induction handled using List.reverseRecOn with
  | nil => rw [List.map_nil, List.append_nil]
  | append_singleton front last inductionHypothesis =>
      rw [List.map_append, ← List.append_assoc, List.map_singleton, acceptedSince_snoc]
      exact inductionHypothesis

/-! ### What the sessions remember -/

/-- A session in the table remembers what it has accepted since it was opened, and
every frame in its queue that was ever accepted was accepted by it. -/
structure EntryRecalls (trace : List Observation) (id : SessionKey) (entry : SessionEntry) : Prop where
  running : ∀ session, entry.task = .running session →
    Session.Recalls entry.runtime (acceptedSince id trace) session
  spawned : entry.task = .spawned → acceptedSince id trace = []
  queue : ∀ packet ∈ entry.queue, sessionKey packet.frame = id ∧
    ((id, packet.frame.sequence) ∈ acceptedFrames trace →
      packet.frame.sequence ∈ acceptedSince id trace)

/-- No frame has been accepted twice, and all sessions remember theirs. -/
structure RunRecalls (config : ServerConfig) (trace : List Observation) (sessions : Sessions) :
    Prop where
  sound : Sound config sessions
  once : (acceptedFrames trace).Nodup
  entry : ∀ id entry, sessions.lookup id = some entry → EntryRecalls trace id entry

/-- A repeated frame: its key id, session and sequence number were accepted before. -/
def Repeated (trace : List Observation) (frame : Frame) : Prop :=
  (sessionKey frame, frame.sequence) ∈ acceptedFrames trace

instance (trace : List Observation) (frame : Frame) : Decidable (Repeated trace frame) :=
  inferInstanceAs (Decidable (_ ∈ _))

/-- A repeated frame finds in the table the session that accepted it, or finds its session
gone and does not open it again. -/
def MeetsMemory (config : ServerConfig) (sessions : Sessions) (trace : List Observation)
    (frame : Frame) : Prop :=
  Repeated trace frame →
    (sessionKey frame ∈ sessions ∧ frame.sequence ∈ acceptedSince (sessionKey frame) trace) ∨
      (sessionKey frame ∉ sessions ∧ Ignored config sessions frame)

instance (config : ServerConfig) (sessions : Sessions) (trace : List Observation) (frame : Frame) :
    Decidable (MeetsMemory config sessions trace frame) :=
  inferInstanceAs (Decidable (_ → _))

/-- The frame that a step receives, if any. -/
def ServerEvent.frame? (build : Build) (config : ServerConfig) : ServerEvent → Option Frame
  | .received bytes _ _ =>
    ((decodeServerFrame build.blake build.aead config.selectors
      (bytes.take netBuffer)).toOption).map Prod.fst
  | _ => none

/-- Every frame of the run meets the memory of its session, if it is a repeated one. -/
def RepeatsMeetMemory (build : Build) (config : ServerConfig) (events : List ServerEvent) : Prop :=
  Along (tracedStep build config) ∅ (fun sessions trace event =>
    ∀ frame ∈ event.frame? build config, MeetsMemory config sessions trace frame) events

instance (build : Build) (config : ServerConfig) (events : List ServerEvent) :
    Decidable (RepeatsMeetMemory build config events) :=
  inferInstanceAs (Decidable (Along _ _ _ _))

theorem newSessions_eq_nil {sessions next : Sessions} (old : ∀ id ∈ next, id ∈ sessions) :
    newSessions sessions next = [] := by
  unfold newSessions
  rw [List.filter_eq_nil_iff]
  intro id member isNew
  exact of_decide_eq_true isNew (old id member)

theorem mem_newSessions {sessions next : Sessions} {id : SessionKey} :
    id ∈ newSessions sessions next ↔ id ∈ next ∧ id ∉ sessions := by
  unfold newSessions
  rw [List.mem_filter, decide_eq_true_iff]
  exact Iff.rfl

theorem EntryRecalls.opened {trace : List Observation} {id : SessionKey} {entry : SessionEntry}
    (recalls : EntryRecalls trace id entry) {ids : List SessionKey} (others : id ∉ ids) :
    EntryRecalls (trace ++ ids.map Observation.opened) id entry where
  running := by
    rw [acceptedSince_opened, if_neg others]
    exact recalls.running
  spawned := by
    rw [acceptedSince_opened, if_neg others]
    exact recalls.spawned
  queue := by
    rw [acceptedSince_opened, if_neg others, acceptedFrames_opened]
    exact recalls.queue

theorem EntryRecalls.of_queue {trace : List Observation} {id : SessionKey}
    {entry next : SessionEntry} (recalls : EntryRecalls trace id entry)
    (runtime : next.runtime = entry.runtime) (task : next.task = entry.task)
    (queue : ∀ packet ∈ next.queue, packet ∈ entry.queue ∨
      sessionKey packet.frame = id ∧ ((id, packet.frame.sequence) ∈ acceptedFrames trace →
        packet.frame.sequence ∈ acceptedSince id trace)) : EntryRecalls trace id next where
  running := by
    rw [runtime, task]
    exact recalls.running
  spawned := by
    rw [task]
    exact recalls.spawned
  queue := by
    intro packet member
    rcases queue packet member with old | new
    · exact recalls.queue packet old
    · exact new

theorem lookup_deliver (sessions : Sessions) (packet : SessionPacket) (now : Nat)
    (id : SessionKey) :
    (deliver sessions packet now).lookup id =
      if id = sessionKey packet.frame then
        (sessions.lookup id).map fun entry =>
          { entry with lastSeen := now, queue := entry.enqueue packet }
      else sessions.lookup id := by
  unfold deliver
  cases found : sessions.lookup (sessionKey packet.frame) with
  | none =>
      dsimp only
      split
      next same =>
        rw [same, found]
        rfl
      next => rfl
  | some entry =>
      dsimp only
      rw [Table.lookup_insert_eq]
      split
      next same =>
        rw [same, found]
        rfl
      next => rfl

theorem mem_enqueue {entry : SessionEntry} {packet other : SessionPacket}
    (member : other ∈ entry.enqueue packet) : other ∈ entry.queue ∨ other = packet := by
  unfold SessionEntry.enqueue at member
  split at member
  · rcases List.mem_append.mp member with old | new
    · exact Or.inl old
    · exact Or.inr (List.mem_singleton.mp new)
  · exact Or.inl member

/-! ### Steps -/

namespace RunRecalls

variable {config : ServerConfig} {trace : List Observation} {sessions : Sessions}

/-- A packet for a session in the table: the queue may get the packet, nothing else
changes. -/
theorem deliver_known (recalls : RunRecalls config trace sessions) {packet : SessionPacket}
    (known : Repeated trace packet.frame → sessionKey packet.frame ∈ sessions →
      packet.frame.sequence ∈ acceptedSince (sessionKey packet.frame) trace) (now : Nat) :
    ∀ id entry, (deliver sessions packet now).lookup id = some entry →
      EntryRecalls trace id entry := by
  intro id entry found
  rw [lookup_deliver] at found
  split at found
  next same =>
    obtain ⟨old, isOld, rfl⟩ := Option.map_eq_some_iff.mp found
    have member : sessionKey packet.frame ∈ sessions := by
      rw [← same]
      exact Table.mem_iff_exists_lookup.mpr ⟨old, isOld⟩
    refine (recalls.entry id old isOld).of_queue rfl rfl ?_
    intro other inQueue
    rcases mem_enqueue inQueue with before | rfl
    · exact Or.inl before
    · refine Or.inr ⟨same.symm, ?_⟩
      rw [same]
      exact fun repeated => known repeated member
  next => exact recalls.entry id entry found

/-- An authenticated frame: a repeated one meets the session that accepted it, or stays
out. -/
theorem receive (recalls : RunRecalls config trace sessions) {packet : SessionPacket}
    (isV3 : packet.frame.version = versionV3) (deviceKey : Bytes) (now : Nat)
    (meets : MeetsMemory config sessions trace packet.frame) :
    ∀ id entry, (Tunnel.receive config sessions packet deviceKey now).lookup id = some entry →
      EntryRecalls
        (trace ++ (newSessions sessions
          (Tunnel.receive config sessions packet deviceKey now)).map Observation.opened) id entry := by
  have known : Repeated trace packet.frame → sessionKey packet.frame ∈ sessions →
      packet.frame.sequence ∈ acceptedSince (sessionKey packet.frame) trace := by
    intro repeated member
    rcases meets repeated with ⟨_, remembered⟩ | ⟨absent, _⟩
    · exact remembered
    · exact absurd member absent
  have unchanged : ∀ id entry, (deliver sessions packet now).lookup id = some entry →
      EntryRecalls (trace ++ (newSessions sessions (deliver sessions packet now)).map
        Observation.opened) id entry := by
    have noneNew : newSessions sessions (deliver sessions packet now) = [] :=
      newSessions_eq_nil fun id => ((Keeps.deliver sessions packet now).mem_iff id).mp
    rw [noneNew, List.map_nil, List.append_nil]
    exact recalls.deliver_known known now
  unfold Tunnel.receive
  by_cases member : sessionKey packet.frame ∈ sessions
  · rw [if_pos member]
    exact unchanged
  · rw [if_neg member]
    rcases openSession_cases recalls.sound.size isV3 member deviceKey now with
      ⟨_, same⟩ | ⟨admitted, installs⟩
    · rw [same]
      exact unchanged
    · -- The session is opened with an empty memory, so its first frame must not be a repeated one.
      have notRepeated : ¬ Repeated trace packet.frame := by
        intro repeated
        rcases meets repeated with ⟨inTable, _⟩ | ⟨_, ignored⟩
        · exact member inTable
        · exact admitted ignored
      generalize openSession config sessions packet.frame deviceKey now = middle at installs
      have keeps := Keeps.deliver middle packet now
      intro id entry found
      rw [lookup_deliver] at found
      split at found
      next same =>
        obtain ⟨old, isOld, rfl⟩ := Option.map_eq_some_iff.mp found
        rw [installs.lookup, if_pos same] at isOld
        cases isOld
        have isNew : id ∈ newSessions sessions (deliver middle packet now) := by
          rw [mem_newSessions, keeps.mem_iff, installs.mem_iff]
          refine ⟨Or.inl same, ?_⟩
          rw [same]
          exact member
        have emptied : acceptedSince id (trace ++ (newSessions sessions
            (deliver middle packet now)).map Observation.opened) = [] := by
          rw [acceptedSince_opened, if_pos isNew]
        refine ⟨?_, fun _ => emptied, ?_⟩
        · intro session impossible
          cases impossible
        · intro other inQueue
          dsimp only at inQueue
          rcases mem_enqueue inQueue with before | rfl
          · cases before
          · refine ⟨same.symm, ?_⟩
            rw [acceptedFrames_opened, same]
            exact fun repeated => absurd repeated notRepeated
      next different =>
        rw [installs.lookup, if_neg different] at found
        split at found
        next => cases found
        next =>
          apply (recalls.entry id entry found).opened
          intro isNew
          exact (mem_newSessions.mp isNew).2 (Table.mem_iff_exists_lookup.mpr ⟨entry, found⟩)

/-- No step that keeps the sessions it does not touch opens one. -/
theorem of_entries {next : Sessions} (recalls : RunRecalls config trace sessions)
    (sound : Sound config next) (old : ∀ id ∈ next, id ∈ sessions)
    (entry : ∀ id entry, next.lookup id = some entry → EntryRecalls trace id entry) :
    RunRecalls config (trace ++ (newSessions sessions next).map Observation.opened) next := by
  rw [newSessions_eq_nil old, List.map_nil, List.append_nil]
  exact ⟨sound, recalls.once, entry⟩

/-- A worker that starts has nothing to remember. -/
theorem bind (recalls : RunRecalls config trace sessions) {id : SessionKey}
    {runtime : SessionRuntime} {queue : List SessionPacket} {lastSeen : Nat}
    (found : sessions.lookup id = some ⟨runtime, queue, lastSeen, .spawned⟩) (bound : Bool)
    (hook : Option Nat) :
    ∀ other entry,
      (sessions.insert id ⟨runtime, queue, lastSeen,
        if bound then .running (Session.start runtime hook) else .finished⟩).lookup other =
          some entry → EntryRecalls trace other entry := by
  intro other entry isEntry
  rcases Table.of_lookup_insert isEntry with ⟨rfl, rfl⟩ | ⟨_, isOld⟩
  · have old := recalls.entry _ _ found
    have nothing := old.spawned rfl
    refine ⟨?_, ?_, old.queue⟩
    · intro session isRunning
      cases bound with
      | true =>
          cases isRunning
          rw [nothing]
          exact Session.recalls_start runtime hook
      | false => cases isRunning
    · intro isSpawned
      cases bound <;> cases isSpawned
  · exact recalls.entry other entry isOld

end RunRecalls

/-! ### Rounds of the workers -/

theorem Session.freshSequences_le_one (runtime : SessionRuntime) (session : Session)
    (event : SessionEvent) :
    session.freshSequences runtime event = [] ∨
      ∃ sequence, session.freshSequences runtime event = [sequence] := by
  cases event with
  | packet packet host =>
      rw [Session.freshSequences_packet]
      split
      · exact Or.inr ⟨_, rfl⟩
      · exact Or.inl rfl
  | _ => exact Or.inl rfl

/-- A worker takes its packets from the queue. -/
theorem resolve_queue {entry : SessionEntry} {session : Session} {event : WorkerEvent}
    {sessionEvent : SessionEvent} {queue : List SessionPacket} {lastSeen : Nat}
    (resolved : event.resolve entry session = some (sessionEvent, queue, lastSeen)) :
    (∀ packet ∈ queue, packet ∈ entry.queue) ∧
      ∀ runtime, ∀ sequence ∈ session.freshSequences runtime sessionEvent,
        ∃ packet ∈ entry.queue, packet.frame.sequence = sequence := by
  cases event with
  | packet host =>
      unfold WorkerEvent.resolve at resolved
      dsimp only at resolved
      split at resolved
      next => cases resolved
      next first rest isQueue =>
        cases resolved
        rw [isQueue]
        refine ⟨fun packet member => List.mem_cons_of_mem _ member, ?_⟩
        intro runtime sequence member
        rw [Session.freshSequences_packet] at member
        split at member
        · exact ⟨first, List.mem_cons_self, (List.mem_singleton.mp member).symm⟩
        · cases member
  | upstream received now =>
      cases resolved
      exact ⟨fun packet member => member, fun runtime sequence member => by cases member⟩
  | reportTick =>
      cases resolved
      exact ⟨fun packet member => member, fun runtime sequence member => by cases member⟩
  | flushTick =>
      cases resolved
      exact ⟨fun packet member => member, fun runtime sequence member => by cases member⟩

/-- One round of a running worker: what it accepts was never accepted before, and it
gives something to the upstream only if it accepts a frame. -/
theorem RunRecalls.round {config : ServerConfig} {trace : List Observation} {sessions : Sessions}
    (recalls : RunRecalls config trace sessions) {rs : ReedSolomon} {id : SessionKey}
    {entry : SessionEntry} {session next : Session} {event : WorkerEvent}
    {sessionEvent : SessionEvent} {queue : List SessionPacket} {lastSeen : Nat}
    {outputs : List SessionOutput} (found : sessions.lookup id = some entry)
    (isRunning : entry.task = .running session)
    (resolved : event.resolve entry session = some (sessionEvent, queue, lastSeen))
    (stepped : session.step rs entry.runtime sessionEvent = some (next, outputs)) :
    (acceptedFrames (trace ++ (session.freshSequences entry.runtime sessionEvent).map
        (Observation.accepted id))).Nodup ∧
      (∀ other changed,
        (sessions.insert id { entry with queue, lastSeen, task := .running next }).lookup other =
          some changed →
        EntryRecalls (trace ++ (session.freshSequences entry.runtime sessionEvent).map
          (Observation.accepted id)) other changed) ∧
      ∀ datagram, SessionOutput.upstream datagram ∈ outputs →
        ∃ sequence, session.freshSequences entry.runtime sessionEvent = [sequence] := by
  have old := recalls.entry id entry found
  obtain ⟨later, isNew, forwards⟩ := (old.running session isRunning).step stepped
  obtain ⟨fromQueue, freshQueue⟩ := resolve_queue resolved
  have single := session.freshSequences_le_one entry.runtime sessionEvent
  have freshRound := freshQueue entry.runtime
  generalize session.freshSequences entry.runtime sessionEvent = fresh at *
  refine ⟨?_, ?_, ?_⟩
  · rw [acceptedFrames_accepted, List.nodup_append]
    refine ⟨recalls.once, ?_, ?_⟩
    · rcases single with isNil | ⟨sequence, isOne⟩
      · rw [isNil]
        exact List.nodup_nil
      · rw [isOne]
        exact List.nodup_singleton _
    · -- The frame comes from the queue, so an earlier acceptance would be remembered.
      rintro accepted before _ added rfl
      obtain ⟨sequence, inFresh, rfl⟩ := List.mem_map.mp added
      obtain ⟨packet, inQueue, rfl⟩ := freshRound sequence inFresh
      exact isNew _ inFresh ((old.queue packet inQueue).2 before)
  · intro other changed isChanged
    rcases Table.of_lookup_insert isChanged with ⟨rfl, rfl⟩ | ⟨different, unchanged⟩
    · refine ⟨?_, fun impossible => (by cases impossible), ?_⟩
      · intro running isNext
        cases isNext
        rw [acceptedSince_accepted, if_pos rfl]
        exact later
      · intro packet member
        obtain ⟨isKey, remembered⟩ := old.queue packet (fromQueue packet member)
        refine ⟨isKey, ?_⟩
        rw [acceptedFrames_accepted, acceptedSince_accepted, if_pos rfl, List.mem_append,
          List.mem_append]
        rintro (before | added)
        · exact Or.inl (remembered before)
        · obtain ⟨sequence, inFresh, isPair⟩ := List.mem_map.mp added
          rw [← (Prod.mk.inj isPair).2]
          exact Or.inr inFresh
    · have others : id ≠ other := fun equal => different equal.symm
      have kept := recalls.entry other changed unchanged
      refine ⟨?_, ?_, ?_⟩
      · rw [acceptedSince_accepted, if_neg others]
        exact kept.running
      · rw [acceptedSince_accepted, if_neg others]
        exact kept.spawned
      · intro packet member
        obtain ⟨isKey, remembered⟩ := kept.queue packet member
        refine ⟨isKey, ?_⟩
        rw [acceptedFrames_accepted, acceptedSince_accepted, if_neg others, List.mem_append]
        rintro (before | added)
        · exact remembered before
        · obtain ⟨sequence, _, isPair⟩ := List.mem_map.mp added
          exact absurd (Prod.mk.inj isPair).1 others
  · intro datagram member
    rcases single with isNil | isOne
    · exact absurd isNil (forwards datagram member)
    · exact isOne

/-! ### Runs -/

theorem tracedStep_spec {build : Build} {config : ServerConfig} {sessions next : Sessions}
    {event : ServerEvent} {happened : List Observation}
    (stepped : tracedStep build config sessions event = some (next, happened)) :
    ∃ outputs, serverStep build config sessions event = some (next, outputs) ∧
      happened = (newSessions sessions next).map Observation.opened ++
        (freshFrames sessions event).map (fun fresh => Observation.accepted fresh.1 fresh.2) ++
        (handlings build.rs sessions event ++ forwards outputs).map fun handled =>
          Observation.handled handled.1 handled.2 := by
  obtain ⟨⟨after, outputs⟩, isStep, isNext⟩ := Option.map_eq_some_iff.mp stepped
  cases isNext
  exact ⟨outputs, isStep, rfl⟩

/-- A worker event: nothing happens, or a running worker makes one round. -/
theorem workerEvent_cases {build : Build} {config : ServerConfig} {sessions next : Sessions}
    {id : SessionKey} {event : WorkerEvent} {outputs : List ServerOutput}
    (stepped : serverStep build config sessions (.worker id event) = some (next, outputs)) :
    (next = sessions ∧ outputs = [] ∧ freshFrames sessions (.worker id event) = [] ∧
        handlings build.rs sessions (.worker id event) = []) ∨
      ∃ entry session after sessionEvent queue lastSeen emitted,
        sessions.lookup id = some entry ∧ entry.task = .running session ∧
        event.resolve entry session = some (sessionEvent, queue, lastSeen) ∧
        session.step build.rs entry.runtime sessionEvent = some (after, emitted) ∧
        next = sessions.insert id { entry with queue, lastSeen, task := .running after } ∧
        outputs = emitted.map (fun output => (id, output)) ∧
        freshFrames sessions (.worker id event) =
          (session.freshSequences entry.runtime sessionEvent).map (fun sequence => (id, sequence)) ∧
        handlings build.rs sessions (.worker id event) =
          (session.handlings build.rs entry.runtime sessionEvent).map
            fun handling => (id, handling) := by
  cases found : sessions.lookup id with
  | none =>
      simp only [serverStep, found] at stepped
      cases stepped
      exact Or.inl ⟨rfl, rfl, by simp only [freshFrames, found], by simp only [handlings, found]⟩
  | some entry =>
      obtain ⟨runtime, queue, lastSeen, task⟩ := entry
      cases task with
      | spawned =>
          simp only [serverStep, found] at stepped
          cases stepped
          exact Or.inl ⟨rfl, rfl, by simp only [freshFrames, found],
            by simp only [handlings, found]⟩
      | finished =>
          simp only [serverStep, found] at stepped
          cases stepped
          exact Or.inl ⟨rfl, rfl, by simp only [freshFrames, found],
            by simp only [handlings, found]⟩
      | running session =>
          simp only [serverStep, found, workerStep] at stepped
          cases resolved : event.resolve ⟨runtime, queue, lastSeen, .running session⟩ session with
          | none =>
              simp only [resolved] at stepped
              cases stepped
              exact Or.inl ⟨rfl, rfl, by simp only [freshFrames, found, resolved],
                by simp only [handlings, found, resolved]⟩
          | some resolution =>
              obtain ⟨sessionEvent, rest, seen⟩ := resolution
              simp only [resolved] at stepped
              obtain ⟨⟨after, emitted⟩, isStep, isNext⟩ := Option.map_eq_some_iff.mp stepped
              cases isNext
              exact Or.inr ⟨_, session, after, sessionEvent, rest, seen, emitted, rfl, rfl,
                resolved, isStep, rfl, rfl, by simp only [freshFrames, found, resolved],
                by simp only [handlings, found, resolved]⟩

theorem recalls_empty (config : ServerConfig) : RunRecalls config [] ∅ where
  sound := sound_empty config
  once := List.nodup_nil
  entry := by
    intro id entry found
    cases found

/-- What the sessions do with the accepted frames does not matter here. -/
theorem RunRecalls.handled {config : ServerConfig} {trace : List Observation} {sessions : Sessions}
    (recalls : RunRecalls config trace sessions) (handled : List (SessionKey × Handling)) :
    RunRecalls config (trace ++ handled.map fun each => Observation.handled each.1 each.2)
      sessions where
  sound := recalls.sound
  once := by
    rw [acceptedFrames_handled]
    exact recalls.once
  entry := by
    intro id entry found
    have old := recalls.entry id entry found
    refine ⟨?_, ?_, ?_⟩
    · rw [acceptedSince_handled]
      exact old.running
    · rw [acceptedSince_handled]
      exact old.spawned
    · rw [acceptedSince_handled, acceptedFrames_handled]
      exact old.queue

/-- One step of the server. -/
theorem RunRecalls.step {build : Build} {config : ServerConfig} {trace happened : List Observation}
    {sessions next : Sessions} {event : ServerEvent} (recalls : RunRecalls config trace sessions)
    (stepped : tracedStep build config sessions event = some (next, happened))
    (meets : ∀ frame ∈ event.frame? build config, MeetsMemory config sessions trace frame) :
    RunRecalls config (trace ++ happened) next := by
  obtain ⟨outputs, isStep, rfl⟩ := tracedStep_spec stepped
  have sound := recalls.sound.step (serverStep_table isStep)
  rw [← List.append_assoc]
  apply RunRecalls.handled
  cases event with
  | received bytes peer now =>
      simp only [freshFrames, List.map_nil, List.append_nil]
      unfold serverStep at isStep
      dsimp only at isStep
      split at isStep
      next =>
        cases isStep
        exact recalls.of_entries sound (fun id member => member) recalls.entry
      next frame deviceKey opened =>
        cases isStep
        have isV3 := (decodeServerFrame_opens opened).2.2
        refine ⟨sound, ?_, ?_⟩
        · rw [acceptedFrames_opened]
          exact recalls.once
        · exact @RunRecalls.receive config trace sessions recalls ⟨frame, peer⟩ isV3 deviceKey now
            (meets frame (by rw [ServerEvent.frame?, opened]; rfl))
  | cleanup now =>
      simp only [freshFrames, List.map_nil, List.append_nil]
      cases isStep
      refine recalls.of_entries sound (fun id member => mem_of_mem_cleanup member) ?_
      intro id entry found
      exact recalls.entry id entry (Table.lookup_of_lookup_eraseAll found)
  | bind id bound =>
      simp only [freshFrames, List.map_nil, List.append_nil]
      unfold serverStep at isStep
      dsimp only at isStep
      split at isStep
      next runtime queue lastSeen found =>
        cases isStep
        refine recalls.of_entries sound ?_ (recalls.bind found bound build.hook)
        intro other member
        have inTable : id ∈ sessions := Table.mem_iff_exists_lookup.mpr ⟨_, found⟩
        exact ((Keeps.insert inTable _).mem_iff other).mp member
      next =>
        cases isStep
        exact recalls.of_entries sound (fun id member => member) recalls.entry
  | worker id event =>
      rcases workerEvent_cases isStep with ⟨rfl, _, isNil, _⟩ |
        ⟨entry, session, after, sessionEvent, queue, lastSeen, emitted, found, isRunning, resolved,
          round, rfl, _, isFresh, _⟩
      · rw [isNil, List.map_nil, List.append_nil]
        exact recalls.of_entries sound (fun id member => member) recalls.entry
      · obtain ⟨once, entries, _⟩ := recalls.round found isRunning resolved round
        have inTable : id ∈ sessions := Table.mem_iff_exists_lookup.mpr ⟨entry, found⟩
        rw [newSessions_eq_nil fun other =>
            ((Keeps.insert inTable { entry with queue, lastSeen, task := .running after }).mem_iff
              other).mp,
          List.map_nil, List.nil_append, isFresh, List.map_map]
        exact ⟨sound, once, entries⟩

theorem recalls_of_run {build : Build} {config : ServerConfig} {events front : List ServerEvent}
    (meets : RepeatsMeetMemory build config events) (isPrefix : front <+: events)
    {sessions : Sessions} {trace : List Observation}
    (ran : run (tracedStep build config) ∅ front = some (sessions, trace)) :
    RunRecalls config trace sessions := by
  refine run_invariant ran (fun _ trace sessions => RunRecalls config trace sessions)
    (recalls_empty config) ?_
  intro past event trace sessions next happened within ranPast stepped recalls
  exact recalls.step stepped (meets past event sessions trace (within.trans isPrefix) ranPast)

end SmartFecTunnel.Tunnel
