import SmartFecTunnel.Wire.RoundTrip
import SmartFecTunnel.Tunnel.Session

/-!
Contract: the session table of the server (`server` and `superseded_sessions` in
`src/main.rs`).

A frame of an unknown session first removes the other sessions of its device,
where its sequence number allows a takeover, then meets three capacity checks,
and then opens its session.

Owns:
- the table with the sessions' queues and workers, and one step of the whole
  server;
- `receive_cases`: a frame finds its session, is ignored, or installs its session
  in place of the device's other one;
- that a takeover is atomic and isolated.

Does not own: the sockets and the pacer.
-/

namespace SmartFecTunnel.Tunnel

open SmartFecTunnel.Library
open SmartFecTunnel.Fec
open SmartFecTunnel.Wire

def maxV2SessionsPerDevice : Nat := 16
def maxV1MigrationSessions : Nat := 64
def sessionTakeoverMaxSequence : Nat := 32
/-- The capacity of a session's queue. -/
def queueCapacity : Nat := 256

/-- The libraries and the test hook a server is built with. -/
structure Build where
  rs : ReedSolomon
  blake : Blake3
  aead : Aead
  hook : Option Nat

/-- The parameters that pass the checks of start-up. -/
structure ServerConfig where
  maxSessions : Nat
  sessionIdleSecs : Nat
  selectors : Selectors
  sessions_pos : 1 ≤ maxSessions
  sessions_le : maxSessions ≤ 65536
  idle_ge : 10 ≤ sessionIdleSecs
  idle_le : sessionIdleSecs ≤ 86400

/-- The checks of start-up, up to the sockets. -/
def ServerConfig.new (blake : Blake3) (legacyKey : Option Bytes) (keyring : Table Nat Bytes)
    (maxSessions sessionIdleSecs : Nat) : Except String ServerConfig :=
  if sessions : 1 ≤ maxSessions ∧ maxSessions ≤ 65536 then
    if idle : 10 ≤ sessionIdleSecs ∧ sessionIdleSecs ≤ 86400 then
      if legacyKey.isNone ∧ keyring.size = 0 then
        .error "server requires --key for V1 migration and/or --keyring for V2"
      else
        (selectorTable blake keyring).map fun selectors =>
          ⟨maxSessions, sessionIdleSecs, selectors, sessions.1, sessions.2, idle.1, idle.2⟩
    else .error "session-idle-secs must be between 10 and 86400"
  else .error "max-sessions must be between 1 and 65536"

/-- The idle time after which a session expires, in nanoseconds. -/
def ServerConfig.idle (config : ServerConfig) : Nat := config.sessionIdleSecs * 1_000_000_000

/-- A worker: spawned, in its loop, or ended because its socket failed. -/
inductive Task where
  | spawned
  | running (session : Session)
  | finished

def Task.isFinished : Task → Bool
  | .finished => true
  | _ => false

structure SessionEntry where
  runtime : SessionRuntime
  queue : List SessionPacket
  lastSeen : Nat
  task : Task

/-- Key id and session number. -/
abbrev SessionKey := Nat × Nat

abbrev Sessions := Table SessionKey SessionEntry

/-- The key of the session a frame belongs to. -/
def sessionKey (frame : Frame) : SessionKey := (frame.keyId, frame.session)

def supersededSessions {α : Type} (sessions : Table SessionKey α) (keyId session sequence : Nat) :
    Option (List SessionKey) :=
  let existing := sessions.keys.filter fun id => id.1 = keyId ∧ id.2 ≠ session
  if existing.isEmpty then some existing
  else if sequence ≤ sessionTakeoverMaxSequence then some existing
  else none

/-- The number of sessions of a device. -/
def deviceCount (sessions : Sessions) (keyId : Nat) : Nat :=
  (sessions.keys.filter fun id => id.1 = keyId).length

/-- Frames of versions 2 and 3 take over from the other sessions of the device. -/
def TakesOver (frame : Frame) : Prop := frame.version = versionV2 ∨ frame.version = versionV3

instance (frame : Frame) : Decidable (TakesOver frame) := inferInstanceAs (Decidable (_ ∨ _))

/-- The table without the sessions that a frame supersedes, unless the frame may
not supersede them. -/
def removeSuperseded (sessions : Sessions) (frame : Frame) : Option Sessions :=
  if TakesOver frame then
    (supersededSessions sessions frame.keyId frame.session frame.sequence).map sessions.eraseAll
  else some sessions

/-- The capacity checks. -/
def Full (config : ServerConfig) (sessions : Sessions) (frame : Frame) : Prop :=
  config.maxSessions ≤ sessions.size ∨
    (frame.version = versionV1 ∧ maxV1MigrationSessions ≤ deviceCount sessions 0) ∨
    (TakesOver frame ∧ maxV2SessionsPerDevice ≤ deviceCount sessions frame.keyId)

instance (config : ServerConfig) (sessions : Sessions) (frame : Frame) :
    Decidable (Full config sessions frame) :=
  inferInstanceAs (Decidable (_ ∨ _ ∨ _))

/-- The entry of a new session. -/
def newEntry (frame : Frame) (deviceKey : Bytes) (now : Nat) : SessionEntry where
  runtime := ⟨deviceKey, frame.version, frame.keyId, frame.session⟩
  queue := []
  lastSeen := now
  task := .spawned

/-- Open the session of a frame.  A capacity check that fails leaves the table as
the removal made it. -/
def openSession (config : ServerConfig) (sessions : Sessions) (frame : Frame) (deviceKey : Bytes)
    (now : Nat) : Sessions :=
  match removeSuperseded sessions frame with
  | none => sessions
  | some cleared =>
    if Full config cleared frame then cleared
    else cleared.insert (sessionKey frame) (newEntry frame deviceKey now)

/-- `try_send`: a full queue or a finished worker drops the packet. -/
def SessionEntry.enqueue (entry : SessionEntry) (packet : SessionPacket) : List SessionPacket :=
  if entry.task.isFinished = false ∧ entry.queue.length < queueCapacity then
    entry.queue ++ [packet]
  else entry.queue

/-- Hand a packet to its session, if there is one. -/
def deliver (sessions : Sessions) (packet : SessionPacket) (now : Nat) : Sessions :=
  match sessions.lookup (sessionKey packet.frame) with
  | none => sessions
  | some entry =>
    sessions.insert (sessionKey packet.frame)
      { entry with lastSeen := now, queue := entry.enqueue packet }

/-- The arm of the loop for an authenticated frame.  A frame whose session is not
opened finds none in `deliver`. -/
def receive (config : ServerConfig) (sessions : Sessions) (packet : SessionPacket)
    (deviceKey : Bytes) (now : Nat) : Sessions :=
  if sessionKey packet.frame ∈ sessions then deliver sessions packet now
  else deliver (openSession config sessions packet.frame deviceKey now) packet now

/-- A session that the cleanup removes. -/
def Expired (config : ServerConfig) (now : Nat) (entry : SessionEntry) : Prop :=
  entry.task.isFinished = true ∨ config.idle ≤ now - entry.lastSeen

instance (config : ServerConfig) (now : Nat) (entry : SessionEntry) :
    Decidable (Expired config now entry) :=
  inferInstanceAs (Decidable (_ ∨ _))

def cleanup (config : ServerConfig) (sessions : Sessions) (now : Nat) : Sessions :=
  sessions.eraseAll ((sessions.entries.filter fun entry => Expired config now entry.2).map
    fun entry => entry.1)

/-! ### The whole server -/

/-- What wakes a worker.  A packet is the next one of the session's queue. -/
inductive WorkerEvent where
  | packet (host : Host)
  | upstream (received : Option Bytes) (now : Nat)
  | reportTick
  | flushTick

/-- One event of the server or of one of its workers. -/
inductive ServerEvent where
  | received (bytes : Bytes) (peer : SocketAddr) (now : Nat)
  | cleanup (now : Nat)
  /-- The worker binds and connects its socket, or fails to. -/
  | bind (id : SessionKey) (bound : Bool)
  | worker (id : SessionKey) (event : WorkerEvent)

/-- The event of a session's loop, the queue it leaves and the activity it notes. -/
def WorkerEvent.resolve (entry : SessionEntry) (session : Session) :
    WorkerEvent → Option (SessionEvent × List SessionPacket × Nat)
  | .packet host =>
    match entry.queue with
    | [] => none
    | first :: rest => some (.packet first host, rest, entry.lastSeen)
  | .upstream received now =>
    let seen := if session.peer.isSome ∧ received.isSome then now else entry.lastSeen
    some (.upstream received, entry.queue, seen)
  | .reportTick => some (.reportTick, entry.queue, entry.lastSeen)
  | .flushTick => some (.flushTick, entry.queue, entry.lastSeen)

/-- What a session puts out, with the session. -/
abbrev ServerOutput := SessionKey × SessionOutput

/-- One round of a running worker. -/
def workerStep (build : Build) (sessions : Sessions) (id : SessionKey) (entry : SessionEntry)
    (session : Session) (event : WorkerEvent) : Option (Sessions × List ServerOutput) :=
  match event.resolve entry session with
  | none => some (sessions, [])
  | some (sessionEvent, queue, lastSeen) =>
    (session.step build.rs entry.runtime sessionEvent).map fun result =>
      (sessions.insert id { entry with queue, lastSeen, task := .running result.1 },
        result.2.map fun output => (id, output))

def serverStep (build : Build) (config : ServerConfig) (sessions : Sessions) :
    ServerEvent → Option (Sessions × List ServerOutput)
  | .received bytes peer now =>
    match decodeServerFrame build.blake build.aead config.selectors (bytes.take netBuffer) with
    | .error _ => some (sessions, [])
    | .ok (frame, deviceKey) => some (receive config sessions ⟨frame, peer⟩ deviceKey now, [])
  | .cleanup now => some (cleanup config sessions now, [])
  | .bind id bound =>
    match sessions.lookup id with
    | some ⟨runtime, queue, lastSeen, .spawned⟩ =>
      let task := if bound then .running (Session.start runtime build.hook) else .finished
      some (sessions.insert id ⟨runtime, queue, lastSeen, task⟩, [])
    | _ => some (sessions, [])
  | .worker id event =>
    match sessions.lookup id with
    | some ⟨runtime, queue, lastSeen, .running session⟩ =>
      workerStep build sessions id ⟨runtime, queue, lastSeen, .running session⟩ session event
    | _ => some (sessions, [])

/-! ### The frame arm -/

/-- The sessions of a device. -/
def deviceSessions (sessions : Sessions) (keyId : Nat) : Set Nat :=
  {session | (keyId, session) ∈ sessions}

/-- At most one session for each device. -/
def OnePerDevice (sessions : Sessions) : Prop :=
  ∀ left ∈ sessions, ∀ right ∈ sessions, left.1 = right.1 → left = right

/-- The device of the frame has another session. -/
def HasOther (sessions : Sessions) (frame : Frame) : Prop :=
  ∃ session, session ≠ frame.session ∧ (frame.keyId, session) ∈ sessions

/-- The frame of an unknown session is ignored: it comes too late in its session
to take over from the device's other session, or there is nothing to take over
and the table is full. -/
def Ignored (config : ServerConfig) (sessions : Sessions) (frame : Frame) : Prop :=
  (HasOther sessions frame ∧ sessionTakeoverMaxSequence < frame.sequence) ∨
    (¬ HasOther sessions frame ∧ config.maxSessions ≤ sessions.size)

instance (sessions : Sessions) (frame : Frame) : Decidable (HasOther sessions frame) :=
  decidable_of_iff (∃ id ∈ sessions.keys, id.2 ≠ frame.session ∧ id.1 = frame.keyId)
    ⟨fun ⟨id, member, other, device⟩ => ⟨id.2, other, by rw [← device]; exact member⟩,
      fun ⟨session, other, member⟩ => ⟨(frame.keyId, session), member, other, rfl⟩⟩

instance (config : ServerConfig) (sessions : Sessions) (frame : Frame) :
    Decidable (Ignored config sessions frame) :=
  inferInstanceAs (Decidable (_ ∨ _))

/-- The sessions a frame of an unknown session finds in its way. -/
theorem mem_existing {sessions : Sessions} {keyId session : Nat} {id : SessionKey} :
    (id ∈ sessions.keys.filter fun id => id.1 = keyId ∧ id.2 ≠ session) ↔
      id ∈ sessions ∧ id.1 = keyId ∧ id.2 ≠ session := by
  rw [List.mem_filter, decide_eq_true_eq]
  exact Iff.rfl

theorem deviceCount_eq_zero {sessions : Sessions} {keyId : Nat}
    (none : ∀ id ∈ sessions, id.1 ≠ keyId) : deviceCount sessions keyId = 0 := by
  unfold deviceCount
  rw [List.length_eq_zero_iff, List.filter_eq_nil_iff]
  intro id member
  rw [decide_eq_true_eq]
  exact none id member

/-- Where the device has no session left, only the size of the table counts. -/
theorem full_iff {config : ServerConfig} {sessions : Sessions} {frame : Frame}
    (isV3 : frame.version = versionV3) (none : ∀ id ∈ sessions, id.1 ≠ frame.keyId) :
    Full config sessions frame ↔ config.maxSessions ≤ sessions.size := by
  unfold Full
  rw [deviceCount_eq_zero none, isV3]
  unfold versionV3 versionV1 maxV2SessionsPerDevice
  omega

/-- Replace whatever sessions the device of `frame` has by the session of `frame`. -/
structure Installs (config : ServerConfig) (sessions : Sessions) (frame : Frame)
    (entry : SessionEntry) (next : Sessions) : Prop where
  lookup : ∀ id, next.lookup id =
    if id = sessionKey frame then some entry
    else if id.1 = frame.keyId then none else sessions.lookup id
  size : next.size ≤ config.maxSessions

theorem installs_of_cleared {config : ServerConfig} {sessions cleared : Sessions} {frame : Frame}
    (cleared_lookup : ∀ id, cleared.lookup id =
      if id.1 = frame.keyId then none else sessions.lookup id)
    (room : cleared.size < config.maxSessions) (entry : SessionEntry) :
    Installs config sessions frame entry (cleared.insert (sessionKey frame) entry) where
  lookup := by
    intro id
    rw [Table.lookup_insert_eq, cleared_lookup]
  size := (Table.size_insert_le _ _ _).trans room

/-- What the removal does for a frame of an unknown session. -/
inductive Removal (sessions : Sessions) (frame : Frame) : Option Sessions → Prop
  /-- The device has another session and the frame comes too late to take over. -/
  | tooLate (other : HasOther sessions frame) (late : sessionTakeoverMaxSequence < frame.sequence) :
      Removal sessions frame none
  /-- The device has no session. -/
  | nothing (none : ∀ id ∈ sessions, id.1 ≠ frame.keyId) : Removal sessions frame (some sessions)
  /-- The sessions of the device are removed. -/
  | takeover {cleared : Sessions} (other : HasOther sessions frame)
      (early : frame.sequence ≤ sessionTakeoverMaxSequence)
      (lookup : ∀ id, cleared.lookup id =
        if id.1 = frame.keyId then none else sessions.lookup id)
      (smaller : cleared.size < sessions.size) : Removal sessions frame (some cleared)

theorem removal {sessions : Sessions} {frame : Frame} (isV3 : frame.version = versionV3)
    (unknown : sessionKey frame ∉ sessions) :
    Removal sessions frame (removeSuperseded sessions frame) := by
  have others : ∀ id ∈ sessions, id.1 = frame.keyId → id.2 ≠ frame.session := by
    rintro ⟨keyId, session⟩ member rfl rfl
    exact unknown member
  have takesOver : TakesOver frame := Or.inr isV3
  unfold removeSuperseded supersededSessions
  rw [if_pos takesOver]
  dsimp only
  generalize isExisting : (sessions.keys.filter fun id =>
    id.1 = frame.keyId ∧ id.2 ≠ frame.session) = existing
  have memExisting : ∀ id, id ∈ existing ↔ id ∈ sessions ∧ id.1 = frame.keyId := by
    intro id
    rw [← isExisting, mem_existing]
    constructor
    · exact fun found => ⟨found.1, found.2.1⟩
    · exact fun found => ⟨found.1, found.2, others id found.1 found.2⟩
  cases existing with
  | nil =>
      apply Removal.nothing
      intro id member ofDevice
      exact absurd ((memExisting id).mpr ⟨member, ofDevice⟩) List.not_mem_nil
  | cons old rest =>
      obtain ⟨oldMember, oldDevice⟩ := (memExisting old).mp List.mem_cons_self
      have other : HasOther sessions frame := by
        refine ⟨old.2, others old oldMember oldDevice, ?_⟩
        rw [← oldDevice]
        exact oldMember
      rw [if_neg (by simp)]
      by_cases early : frame.sequence ≤ sessionTakeoverMaxSequence
      · rw [if_pos early, Option.map_some]
        have distinct : (old :: rest).Nodup := by
          rw [← isExisting]
          exact sessions.keys_nodup.filter _
        have shrunk := Table.size_eraseAll distinct fun id member => ((memExisting id).mp member).1
        rw [List.length_cons] at shrunk
        refine Removal.takeover other early ?_ (by omega)
        intro id
        rw [Table.lookup_eraseAll]
        by_cases ofDevice : id.1 = frame.keyId
        · rw [if_pos ofDevice]
          split
          next => rfl
          next absent =>
            rw [AList.lookup_eq_none]
            exact fun member => absent ((memExisting id).mpr ⟨member, ofDevice⟩)
        · rw [if_neg ofDevice, if_neg fun member => ofDevice ((memExisting id).mp member).2]
      · rw [if_neg early]
        exact Removal.tooLate other (not_le.mp early)

/-- A frame of an unknown session is ignored, or replaces the sessions of its
device by its own.  No capacity check can fail after a removal. -/
theorem openSession_cases {config : ServerConfig} {sessions : Sessions} {frame : Frame}
    (bounded : sessions.size ≤ config.maxSessions) (isV3 : frame.version = versionV3)
    (unknown : sessionKey frame ∉ sessions) (deviceKey : Bytes) (now : Nat) :
    (Ignored config sessions frame ∧ openSession config sessions frame deviceKey now = sessions) ∨
      (¬ Ignored config sessions frame ∧
        Installs config sessions frame (newEntry frame deviceKey now)
          (openSession config sessions frame deviceKey now)) := by
  unfold openSession
  generalize isRemoval : removeSuperseded sessions frame = removed
  have removal := removal isV3 unknown
  rw [isRemoval] at removal
  cases removal with
  | tooLate other late => exact Or.inl ⟨Or.inl ⟨other, late⟩, rfl⟩
  | nothing noneOfDevice =>
      have noOther : ¬ HasOther sessions frame := by
        rintro ⟨session, _, member⟩
        exact noneOfDevice _ member rfl
      dsimp only
      by_cases isFull : config.maxSessions ≤ sessions.size
      · rw [if_pos ((full_iff isV3 noneOfDevice).mpr isFull)]
        exact Or.inl ⟨Or.inr ⟨noOther, isFull⟩, rfl⟩
      · rw [if_neg (isFull ∘ (full_iff isV3 noneOfDevice).mp)]
        refine Or.inr ⟨?_, installs_of_cleared ?_ (not_le.mp isFull) _⟩
        · rintro (⟨other, _⟩ | ⟨_, full⟩)
          · exact noOther other
          · exact isFull full
        · intro id
          split
          next ofDevice =>
            rw [AList.lookup_eq_none]
            exact fun member => noneOfDevice id member ofDevice
          next => rfl
  | takeover other early lookup smaller =>
      rename_i cleared
      have noneLeft : ∀ id ∈ cleared, id.1 ≠ frame.keyId := by
        intro id member ofDevice
        obtain ⟨entry, found⟩ := Table.mem_iff_exists_lookup.mp member
        rw [lookup, if_pos ofDevice] at found
        cases found
      have room : cleared.size < config.maxSessions := by omega
      dsimp only
      rw [if_neg fun full => absurd ((full_iff isV3 noneLeft).mp full) (not_le.mpr room)]
      refine Or.inr ⟨?_, installs_of_cleared lookup room _⟩
      rintro (⟨_, late⟩ | ⟨noOther, _⟩)
      · exact absurd early (not_le.mpr late)
      · exact noOther other

/-- The table has the same sessions, and only `id` may differ inside. -/
structure Keeps (id : SessionKey) (sessions next : Sessions) : Prop where
  mem_iff : ∀ other, other ∈ next ↔ other ∈ sessions
  lookup : ∀ other, other ≠ id → next.lookup other = sessions.lookup other
  size : next.size = sessions.size

theorem Keeps.refl (id : SessionKey) (sessions : Sessions) : Keeps id sessions sessions :=
  ⟨fun _ => Iff.rfl, fun _ _ => rfl, rfl⟩

theorem Keeps.insert {id : SessionKey} {sessions : Sessions} (member : id ∈ sessions)
    (entry : SessionEntry) : Keeps id sessions (sessions.insert id entry) where
  mem_iff := by
    intro other
    rw [Table.mem_insert]
    constructor
    · rintro (rfl | old)
      · exact member
      · exact old
    · exact Or.inr
  lookup := by
    intro other different
    rw [Table.lookup_insert_eq, if_neg different]
  size := Table.size_insert_of_mem entry member

theorem Keeps.deliver (sessions : Sessions) (packet : SessionPacket) (now : Nat) :
    Keeps (sessionKey packet.frame) sessions (deliver sessions packet now) := by
  unfold Tunnel.deliver
  split
  next => exact Keeps.refl _ _
  next entry found =>
    exact Keeps.insert (Table.mem_iff_exists_lookup.mpr ⟨entry, found⟩) _

theorem Installs.keeps {config : ServerConfig} {sessions middle next : Sessions} {frame : Frame}
    {entry : SessionEntry} (installs : Installs config sessions frame entry middle)
    (keeps : Keeps (sessionKey frame) middle next) :
    ∃ changed, Installs config sessions frame changed next := by
  have present : sessionKey frame ∈ next := by
    rw [keeps.mem_iff, Table.mem_iff_exists_lookup]
    exact ⟨entry, by rw [installs.lookup, if_pos rfl]⟩
  obtain ⟨changed, found⟩ := Table.mem_iff_exists_lookup.mp present
  refine ⟨changed, ?_, keeps.size.trans_le installs.size⟩
  intro id
  by_cases same : id = sessionKey frame
  · rw [if_pos same, same]
    exact found
  · rw [keeps.lookup id same, installs.lookup, if_neg same, if_neg same]

/-- An authenticated frame finds its session or is ignored, and no session comes
or goes; or it installs its session in place of the device's other one. -/
theorem receive_cases {config : ServerConfig} {sessions : Sessions}
    (bounded : sessions.size ≤ config.maxSessions) (packet : SessionPacket)
    (isV3 : packet.frame.version = versionV3) (deviceKey : Bytes) (now : Nat) :
    ((sessionKey packet.frame ∈ sessions ∨ Ignored config sessions packet.frame) ∧
        Keeps (sessionKey packet.frame) sessions
          (receive config sessions packet deviceKey now)) ∨
      (sessionKey packet.frame ∉ sessions ∧ ¬ Ignored config sessions packet.frame ∧
        ∃ entry, Installs config sessions packet.frame entry
          (receive config sessions packet deviceKey now)) := by
  unfold receive
  by_cases known : sessionKey packet.frame ∈ sessions
  · rw [if_pos known]
    exact Or.inl ⟨Or.inl known, Keeps.deliver sessions packet now⟩
  · rw [if_neg known]
    rcases openSession_cases bounded isV3 known deviceKey now with
      ⟨ignored, same⟩ | ⟨admitted, installs⟩
    · rw [same]
      exact Or.inl ⟨Or.inr ignored, Keeps.deliver sessions packet now⟩
    · exact Or.inr ⟨known, admitted, installs.keeps (Keeps.deliver _ packet now)⟩

/-! ### Runs of the server -/

/-- What holds of every table the server reaches. -/
structure Sound (config : ServerConfig) (sessions : Sessions) : Prop where
  one : OnePerDevice sessions
  size : sessions.size ≤ config.maxSessions

theorem sound_empty (config : ServerConfig) : Sound config ∅ where
  one := fun left isLeft => absurd isLeft (AList.notMem_empty left)
  size := Nat.zero_le _

theorem Sound.of_keeps {config : ServerConfig} {id : SessionKey} {sessions next : Sessions}
    (sound : Sound config sessions) (keeps : Keeps id sessions next) : Sound config next where
  one := by
    intro left isLeft right isRight same
    exact sound.one left ((keeps.mem_iff left).mp isLeft) right ((keeps.mem_iff right).mp isRight)
      same
  size := keeps.size.trans_le sound.size

theorem Installs.mem_iff {config : ServerConfig} {sessions next : Sessions} {frame : Frame}
    {entry : SessionEntry} (installs : Installs config sessions frame entry next)
    (id : SessionKey) :
    id ∈ next ↔ id = sessionKey frame ∨ (id.1 ≠ frame.keyId ∧ id ∈ sessions) := by
  rw [Table.mem_iff_exists_lookup, installs.lookup]
  split
  next same => simp [same]
  next different =>
    split
    next ofDevice => simp [different, ofDevice]
    next otherDevice => simp [different, otherDevice, Table.mem_iff_exists_lookup]

theorem Sound.of_installs {config : ServerConfig} {sessions next : Sessions} {frame : Frame}
    {entry : SessionEntry} (sound : Sound config sessions)
    (installs : Installs config sessions frame entry next) : Sound config next where
  one := by
    intro left isLeft right isRight same
    rcases (installs.mem_iff left).mp isLeft with rfl | ⟨leftOther, leftOld⟩
    · rcases (installs.mem_iff right).mp isRight with rfl | ⟨rightOther, _⟩
      · rfl
      · exact absurd same.symm rightOther
    · rcases (installs.mem_iff right).mp isRight with rfl | ⟨_, rightOld⟩
      · exact absurd same leftOther
      · exact sound.one left leftOld right rightOld same
  size := installs.size

theorem mem_of_mem_cleanup {config : ServerConfig} {sessions : Sessions} {now : Nat}
    {id : SessionKey} (member : id ∈ cleanup config sessions now) : id ∈ sessions := by
  obtain ⟨entry, found⟩ := Table.mem_iff_exists_lookup.mp member
  exact Table.mem_iff_exists_lookup.mpr ⟨entry, Table.lookup_of_lookup_eraseAll found⟩

theorem Sound.cleanup {config : ServerConfig} {sessions : Sessions} (sound : Sound config sessions)
    (now : Nat) : Sound config (cleanup config sessions now) where
  one := by
    intro left isLeft right isRight same
    exact sound.one left (mem_of_mem_cleanup isLeft) right (mem_of_mem_cleanup isRight) same
  size := (Table.size_eraseAll_le _ _).trans sound.size

/-- What one event of the server does to the table. -/
inductive TableStep (build : Build) (config : ServerConfig) (sessions : Sessions) :
    ServerEvent → Sessions → Prop
  /-- A datagram that does not open. -/
  | refused {bytes : Bytes} {peer : SocketAddr} {now : Nat} {error : WireError}
      (closed : decodeServerFrame build.blake build.aead config.selectors (bytes.take netBuffer) =
        .error error) :
      TableStep build config sessions (.received bytes peer now) sessions
  | received {bytes deviceKey : Bytes} {peer : SocketAddr} {now : Nat} {frame : Frame}
      (opened : decodeServerFrame build.blake build.aead config.selectors (bytes.take netBuffer) =
        .ok (frame, deviceKey)) (isV3 : frame.version = versionV3) :
      TableStep build config sessions (.received bytes peer now)
        (receive config sessions ⟨frame, peer⟩ deviceKey now)
  | cleanup {now : Nat} :
      TableStep build config sessions (.cleanup now) (cleanup config sessions now)
  | bind {id : SessionKey} {bound : Bool} {next : Sessions} (keeps : Keeps id sessions next) :
      TableStep build config sessions (.bind id bound) next
  | worker {id : SessionKey} {event : WorkerEvent} {next : Sessions}
      (keeps : Keeps id sessions next) : TableStep build config sessions (.worker id event) next

theorem serverStep_table {build : Build} {config : ServerConfig} {sessions next : Sessions}
    {event : ServerEvent} {outputs : List ServerOutput}
    (stepped : serverStep build config sessions event = some (next, outputs)) :
    TableStep build config sessions event next := by
  cases event with
  | received bytes peer now =>
      unfold serverStep at stepped
      dsimp only at stepped
      split at stepped
      next error closed =>
        cases stepped
        exact TableStep.refused closed
      next frame deviceKey opened =>
        cases stepped
        exact TableStep.received opened (decodeServerFrame_opens opened).2.2
  | cleanup now =>
      cases stepped
      exact TableStep.cleanup
  | bind id bound =>
      unfold serverStep at stepped
      dsimp only at stepped
      split at stepped
      next runtime queue lastSeen found =>
        cases stepped
        exact TableStep.bind (Keeps.insert (Table.mem_iff_exists_lookup.mpr ⟨_, found⟩) _)
      next =>
        cases stepped
        exact TableStep.bind (Keeps.refl _ _)
  | worker id event =>
      apply TableStep.worker
      unfold serverStep at stepped
      dsimp only at stepped
      split at stepped
      next runtime queue lastSeen session found =>
        unfold workerStep at stepped
        split at stepped
        next =>
          cases stepped
          exact Keeps.refl _ _
        next =>
          obtain ⟨result, _, isNext⟩ := Option.map_eq_some_iff.mp stepped
          cases isNext
          exact Keeps.insert (Table.mem_iff_exists_lookup.mpr ⟨_, found⟩) _
      next =>
        cases stepped
        exact Keeps.refl _ _

theorem Sound.step {build : Build} {config : ServerConfig} {sessions next : Sessions}
    {event : ServerEvent} (sound : Sound config sessions)
    (step : TableStep build config sessions event next) : Sound config next := by
  cases step with
  | refused => exact sound
  | received opened isV3 =>
      rename_i bytes deviceKey peer now frame
      rcases receive_cases sound.size ⟨frame, peer⟩ isV3 deviceKey now with
        ⟨_, keeps⟩ | ⟨_, _, entry, installs⟩
      · exact sound.of_keeps keeps
      · exact sound.of_installs installs
  | cleanup => exact sound.cleanup _
  | bind keeps => exact sound.of_keeps keeps
  | worker keeps => exact sound.of_keeps keeps

theorem sound_of_run {build : Build} {config : ServerConfig} {events : List ServerEvent}
    {sessions : Sessions} {outputs : List ServerOutput}
    (ran : run (serverStep build config) ∅ events = some (sessions, outputs)) :
    Sound config sessions := by
  refine run_invariant ran (fun _ _ sessions => Sound config sessions) ?_ ?_
  · exact sound_empty config
  · intro past event before state next emitted _ _ stepped sound
    exact sound.step (serverStep_table stepped)

/-- The session table of any run: at most one session for each device, never more
than the limit, and whatever datagram comes next, sessions of other devices stay
as they are and the device's own sessions stay the same or become exactly the new
one. -/
theorem takeover_atomic (build : Build) (config : ServerConfig) (events : List ServerEvent)
    (sessions : Sessions) (outputs : List ServerOutput)
    (ran : run (serverStep build config) ∅ events = some (sessions, outputs)) :
    OnePerDevice sessions ∧ sessions.size ≤ config.maxSessions ∧
      ∀ bytes peer now frame deviceKey,
        decodeServerFrame build.blake build.aead config.selectors (bytes.take netBuffer) =
          .ok (frame, deviceKey) →
        ∃ next, serverStep build config sessions (.received bytes peer now) = some (next, []) ∧
          OnePerDevice next ∧ next.size ≤ config.maxSessions ∧
          (∀ id : SessionKey, id.1 ≠ frame.keyId → next.lookup id = sessions.lookup id) ∧
          (deviceSessions next frame.keyId = deviceSessions sessions frame.keyId ∨
            deviceSessions next frame.keyId = {frame.session}) := by
  have sound := sound_of_run ran
  refine ⟨sound.one, sound.size, ?_⟩
  intro bytes peer now frame deviceKey opened
  have isV3 := (decodeServerFrame_opens opened).2.2
  refine ⟨receive config sessions ⟨frame, peer⟩ deviceKey now, ?_, ?_⟩
  · unfold serverStep
    dsimp only
    rw [opened]
  · have step : TableStep build config sessions (.received bytes peer now)
        (receive config sessions ⟨frame, peer⟩ deviceKey now) := TableStep.received opened isV3
    have nextSound := sound.step step
    refine ⟨nextSound.one, nextSound.size, ?_⟩
    rcases receive_cases sound.size ⟨frame, peer⟩ isV3 deviceKey now with
      ⟨_, keeps⟩ | ⟨_, _, entry, installs⟩
    · refine ⟨?_, Or.inl ?_⟩
      · intro id otherDevice
        apply keeps.lookup id
        rintro rfl
        exact otherDevice rfl
      · ext session
        exact keeps.mem_iff (frame.keyId, session)
    · refine ⟨?_, Or.inr ?_⟩
      · intro id otherDevice
        rw [installs.lookup, if_neg, if_neg otherDevice]
        rintro rfl
        exact otherDevice rfl
      · ext session
        exact (installs.mem_iff (frame.keyId, session)).trans (by simp [sessionKey])

/-! ### Two sessions of one device -/

/-- A report without a sample from device 7. -/
def sampleFrame (session sequence : Nat) : Frame where
  version := versionV3
  keyId := 7
  kind := kindReport
  session := session
  sequence := sequence
  group := 0
  index := 0
  data := 0
  parity := 0
  payload := [255, 255, 255, 255]

def sampleRandom (byte : UInt8) : Randomness where
  nonce := List.replicate 24 byte
  suffix := List.replicate 4 byte
  nonce_length := List.length_replicate
  suffix_length := List.length_replicate

/-- The cipher as it answers for three reports of device 7. -/
def sampleCipher : Aead :=
  Aead.sampled
    { list :=
        [⟨reportKey, (sampleRandom 1).nonce, inner (sampleFrame 100 1),
          [220, 246, 195, 37, 144, 211, 162, 184, 34, 143, 88, 87, 203, 178, 90, 87, 235, 117, 106,
            49, 242, 203, 99, 173, 26, 103, 226, 144, 19, 219, 48, 108, 19, 42, 209, 158, 145, 182,
            220, 241, 86, 244, 234, 22, 189, 31, 191, 26, 172, 132, 187]⟩,
        ⟨reportKey, (sampleRandom 2).nonce, inner (sampleFrame 200 1),
          [116, 197, 62, 62, 167, 81, 198, 159, 101, 16, 22, 161, 238, 203, 43, 61, 116, 81, 218,
            46, 253, 65, 97, 48, 153, 113, 242, 31, 48, 241, 150, 114, 23, 158, 177, 151, 205, 6,
            220, 11, 55, 213, 125, 204, 192, 237, 172, 36, 230, 219, 122]⟩,
        ⟨reportKey, (sampleRandom 3).nonce, inner (sampleFrame 100 33),
          [161, 55, 175, 201, 49, 94, 158, 93, 210, 10, 194, 187, 167, 76, 241, 104, 215, 92, 105,
            65, 74, 185, 98, 78, 214, 182, 121, 40, 37, 103, 36, 59, 245, 129, 100, 38, 91, 132,
            194, 56, 187, 218, 184, 163, 251, 84, 33, 245, 116, 98, 45]⟩]
      length := by decide +kernel
      tagged := by decide +kernel
      injective := by decide +kernel }

noncomputable def sampleBuild : Build := ⟨ReedSolomon.standard, reportHash, sampleCipher, none⟩

def sampleConfig : ServerConfig where
  maxSessions := 2
  sessionIdleSecs := 10
  selectors := Table.insert ∅ (v3SelectorPrefix reportHash 7) (7, reportKey)
  sessions_pos := by decide
  sessions_le := by decide
  idle_ge := by decide
  idle_le := by decide

/-- The arrival of a sealed report. -/
def sampleArrival (byte : UInt8) (session sequence now : Nat) : ServerEvent :=
  .received
    ((encodeWire reportHash sampleCipher (sampleRandom byte) (sampleFrame session sequence)
      reportKey).toOption.getD []) Session.clientAddress now

/-- A new session of device 7 takes over from the old one. -/
theorem takeover_atomic_second_session :
    ∃ sessions outputs,
      run (serverStep sampleBuild sampleConfig) ∅
        [sampleArrival 1 100 1 0, sampleArrival 2 200 1 1] = some (sessions, outputs) ∧
      sessions.keys = [(7, 200)] ∧ OnePerDevice sessions ∧ sessions.size ≤ 2 := by
  have computed : (run (serverStep sampleBuild sampleConfig) ∅
      [sampleArrival 1 100 1 0, sampleArrival 2 200 1 1]).map (fun result => result.1.keys) =
        some [(7, 200)] := by
    decide +kernel
  obtain ⟨⟨sessions, outputs⟩, ran, isKeys⟩ := Option.map_eq_some_iff.mp computed
  obtain ⟨one, size, _⟩ := takeover_atomic sampleBuild sampleConfig
    [sampleArrival 1 100 1 0, sampleArrival 2 200 1 1] sessions outputs ran
  exact ⟨sessions, outputs, ran, isKeys, one, size⟩

/-! ### One datagram of device 7 -/

/-- The datagram `[1, 2, 3]` of session 100, in a group without redundancy. -/
def dataFrame : Frame where
  version := versionV3
  keyId := 7
  kind := kindData
  session := 100
  sequence := 1
  group := 1
  index := 0
  data := 1
  parity := 0
  payload := [0, 0, 0, 0, 0, 0, 0, 1, 0, 0, 0, 1, 0, 3, 1, 2, 3]

/-- The data frame and the repair frame of the same datagram, in a redundant group. -/
def redundantFrame (index : Nat) : Frame :=
  { dataFrame with
    kind := if index = 0 then kindData else kindParity
    sequence := 1 + index
    index := index
    parity := 1 }

/-- The cipher as it answers for these frames. -/
def dataCipher : Aead :=
  Aead.sampled
    { list :=
        [⟨reportKey, (sampleRandom 4).nonce, inner dataFrame,
          [224, 202, 1, 240, 9, 113, 147, 83, 226, 168, 94, 185, 129, 225, 171, 33, 251, 107, 73,
            167, 46, 40, 101, 91, 192, 130, 89, 239, 52, 81, 68, 204, 67, 40, 89, 69, 128, 122,
            11, 131, 31, 145, 237, 246, 137, 123, 164, 192, 122, 120, 16, 50, 17, 152, 38, 224,
            62, 72, 196, 39, 241, 62, 43, 42]⟩,
        ⟨reportKey, (sampleRandom 5).nonce, inner (redundantFrame 0),
          [63, 178, 42, 174, 98, 149, 37, 42, 63, 119, 223, 93, 1, 74, 214, 61, 170, 200, 170,
            197, 26, 128, 175, 233, 47, 252, 142, 23, 131, 169, 102, 27, 216, 133, 17, 7, 202,
            120, 132, 198, 179, 208, 103, 166, 43, 198, 186, 24, 171, 156, 27, 1, 31, 150, 61,
            215, 88, 186, 136, 116, 84, 126, 250, 82]⟩,
        ⟨reportKey, (sampleRandom 6).nonce, inner (redundantFrame 1),
          [118, 205, 106, 75, 90, 246, 170, 126, 180, 158, 239, 249, 186, 180, 108, 173, 183, 84,
            34, 159, 92, 41, 153, 55, 230, 100, 135, 196, 99, 171, 85, 213, 88, 13, 158, 91, 183,
            254, 227, 186, 80, 204, 218, 181, 167, 79, 42, 208, 99, 158, 161, 249, 213, 180, 30,
            211, 25, 195, 73, 214, 253, 148, 92, 103]⟩]
      length := by decide +kernel
      tagged := by decide +kernel
      injective := by decide +kernel }

noncomputable def dataBuild : Build := ⟨ReedSolomon.standard, reportHash, dataCipher, none⟩

/-- A frame of the device as it travels. -/
def sealedData (byte : UInt8) (frame : Frame) : Bytes :=
  (encodeWire reportHash dataCipher (sampleRandom byte) frame reportKey).toOption.getD []

end SmartFecTunnel.Tunnel
