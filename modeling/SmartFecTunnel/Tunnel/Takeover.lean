import SmartFecTunnel.Tunnel.Server

/-!
Contract: superseded sessions over whole runs of the server.

The table keeps no memory of a session that was replaced.  What holds back its
late frames is the sequence number they carry, while the device has another
session, and the size of the table, while it has none.

Owns: superseded sessions stay out exactly as long as each of their frames is
held back by one of the two.

Does not own: the table and its steps.
-/

namespace SmartFecTunnel.Tunnel

open SmartFecTunnel.Library
open SmartFecTunnel.Fec
open SmartFecTunnel.Wire

/-- The sessions that a step replaces by another session of the same device. -/
def replaced (sessions next : Sessions) : List SessionKey :=
  sessions.keys.filter fun old =>
    old ∉ next ∧ ∃ new ∈ next.keys, new ∉ sessions ∧ new.1 = old.1

/-- `serverStep` with the sessions it replaces. -/
def supersedingStep (build : Build) (config : ServerConfig) (sessions : Sessions)
    (event : ServerEvent) : Option (Sessions × List SessionKey) :=
  (serverStep build config sessions event).map fun result =>
    (result.1, replaced sessions result.1)

/-- The datagram opens as this frame. -/
def Opens (build : Build) (config : ServerConfig) (bytes : Bytes) (frame : Frame) : Prop :=
  ∃ deviceKey, decodeServerFrame build.blake build.aead config.selectors (bytes.take netBuffer) =
    .ok (frame, deviceKey)

/-- A frame of a session superseded earlier in the run, as it arrives. -/
structure LateFrame (build : Build) (config : ServerConfig) (events front : List ServerEvent)
    (event : ServerEvent) (sessions : Sessions) (frame : Frame) : Prop where
  within : front ++ [event] <+: events
  arrival : ∃ bytes peer now, event = .received bytes peer now ∧ Opens build config bytes frame
  superseded : ∃ superseded,
    run (supersedingStep build config) ∅ front = some (sessions, superseded) ∧
      sessionKey frame ∈ superseded

/-- No frame of a superseded session removes a session or brings its own back. -/
def NeverBack (build : Build) (config : ServerConfig) (events : List ServerEvent) : Prop :=
  ∀ front event sessions frame next outputs,
    LateFrame build config events front event sessions frame →
    serverStep build config sessions event = some (next, outputs) →
    sessionKey frame ∉ next ∧ ∀ id ∈ sessions, id ∈ next

/-- Every frame of a superseded session comes too late in its session to take over
from the other session of its device, or finds the table full. -/
def LateFramesIgnored (build : Build) (config : ServerConfig) (events : List ServerEvent) : Prop :=
  ∀ front event sessions frame, LateFrame build config events front event sessions frame →
    Ignored config sessions frame

theorem not_mem_of_mem_replaced {sessions next : Sessions} {id : SessionKey}
    (member : id ∈ replaced sessions next) : id ∉ next := by
  have kept := (List.mem_filter.mp member).2
  rw [decide_eq_true_eq] at kept
  exact kept.1

/-- A session in the table was there before, or is that of the frame. -/
theorem mem_before_or_opened {build : Build} {config : ServerConfig} {sessions next : Sessions}
    {event : ServerEvent} (sound : Sound config sessions)
    (step : TableStep build config sessions event next) {id : SessionKey} (member : id ∈ next) :
    id ∈ sessions ∨ ∃ bytes peer now frame, event = .received bytes peer now ∧
      Opens build config bytes frame ∧ id = sessionKey frame := by
  cases step with
  | refused => exact Or.inl member
  | received opened isV3 =>
      rename_i bytes deviceKey peer now frame
      rcases receive_cases sound.size ⟨frame, peer⟩ isV3 deviceKey now with
        ⟨_, keeps⟩ | ⟨_, _, entry, installs⟩
      · exact Or.inl ((keeps.mem_iff id).mp member)
      · rcases (installs.mem_iff id).mp member with isNew | ⟨_, old⟩
        · exact Or.inr ⟨bytes, peer, now, frame, rfl, ⟨deviceKey, opened⟩, isNew⟩
        · exact Or.inl old
  | cleanup => exact Or.inl (mem_of_mem_cleanup member)
  | bind keeps => exact Or.inl ((keeps.mem_iff id).mp member)
  | worker keeps => exact Or.inl ((keeps.mem_iff id).mp member)

/-- If no late frame brings its session back, superseded sessions are not in the
table. -/
theorem superseded_absent {build : Build} {config : ServerConfig} {events front : List ServerEvent}
    {sessions : Sessions} {superseded : List SessionKey} (isPrefix : front <+: events)
    (ran : run (supersedingStep build config) ∅ front = some (sessions, superseded))
    (excluded : ∀ past event before frame next outputs,
      LateFrame build config events past event before frame → Sound config before →
      sessionKey frame ∉ before → serverStep build config before event = some (next, outputs) →
      sessionKey frame ∉ next) :
    Sound config sessions ∧ ∀ id ∈ superseded, id ∉ sessions := by
  refine run_invariant ran
    (fun _ superseded sessions => Sound config sessions ∧ ∀ id ∈ superseded, id ∉ sessions) ?_ ?_
  · exact ⟨sound_empty config, fun id member => absurd member List.not_mem_nil⟩
  · rintro past event before state next emitted within ranPast stepped ⟨sound, absent⟩
    obtain ⟨⟨after, outputs⟩, isStep, isNext⟩ := Option.map_eq_some_iff.mp stepped
    cases isNext
    have step := serverStep_table isStep
    refine ⟨sound.step step, ?_⟩
    intro id member inNext
    rcases List.mem_append.mp member with old | new
    · rcases mem_before_or_opened sound step inNext with inBefore | ⟨bytes, peer, now, frame, rfl,
        opens, rfl⟩
      · exact absent id old inBefore
      · have late : LateFrame build config events past (.received bytes peer now) state frame :=
          ⟨within.trans isPrefix, ⟨bytes, peer, now, rfl, opens⟩, ⟨before, ranPast, old⟩⟩
        exact excluded past _ state frame _ outputs late sound (absent _ old) isStep inNext
    · exact not_mem_of_mem_replaced new inNext

/-- The step of a datagram that opens is `receive`. -/
theorem LateFrame.step {build : Build} {config : ServerConfig} {events front : List ServerEvent}
    {event : ServerEvent} {sessions : Sessions} {frame : Frame}
    (late : LateFrame build config events front event sessions frame) :
    frame.version = versionV3 ∧ ∃ peer deviceKey now, serverStep build config sessions event =
      some (receive config sessions ⟨frame, peer⟩ deviceKey now, []) := by
  obtain ⟨bytes, peer, now, rfl, deviceKey, opened⟩ := late.arrival
  refine ⟨(decodeServerFrame_opens opened).2.2, peer, deviceKey, now, ?_⟩
  unfold serverStep
  dsimp only
  rw [opened]

/-- An ignored late frame changes no key of the table. -/
theorem LateFrame.mem_iff {build : Build} {config : ServerConfig} {events front : List ServerEvent}
    {event : ServerEvent} {sessions next : Sessions} {frame : Frame} {outputs : List ServerOutput}
    (late : LateFrame build config events front event sessions frame)
    (sound : Sound config sessions) (ignored : Ignored config sessions frame)
    (stepped : serverStep build config sessions event = some (next, outputs)) (id : SessionKey) :
    id ∈ next ↔ id ∈ sessions := by
  obtain ⟨isV3, peer, deviceKey, now, isStep⟩ := late.step
  rw [isStep] at stepped
  cases stepped
  rcases receive_cases sound.size ⟨frame, peer⟩ isV3 deviceKey now with
    ⟨_, keeps⟩ | ⟨_, admitted, _⟩
  · exact keeps.mem_iff id
  · exact absurd ignored admitted

/-- A late frame that is not ignored brings its session back. -/
theorem LateFrame.ignored {build : Build} {config : ServerConfig} {events front : List ServerEvent}
    {event : ServerEvent} {sessions : Sessions} {frame : Frame}
    (late : LateFrame build config events front event sessions frame)
    (sound : Sound config sessions) (unknown : sessionKey frame ∉ sessions)
    (absent : ∀ next outputs, serverStep build config sessions event = some (next, outputs) →
      sessionKey frame ∉ next) : Ignored config sessions frame := by
  obtain ⟨isV3, peer, deviceKey, now, isStep⟩ := late.step
  rcases receive_cases sound.size ⟨frame, peer⟩ isV3 deviceKey now with
    ⟨known | ignored, _⟩ | ⟨_, _, entry, installs⟩
  · exact absurd known unknown
  · exact ignored
  · exact absurd ((installs.mem_iff (sessionKey frame)).mpr (Or.inl rfl)) (absent _ _ isStep)

/-- In a run of the server no frame of a superseded session removes a session or
brings its own back, exactly when every such frame is one that the sequence
threshold or the full table holds back. -/
theorem never_back_iff (build : Build) (config : ServerConfig) (events : List ServerEvent) :
    NeverBack build config events ↔ LateFramesIgnored build config events := by
  constructor
  · intro never front event sessions frame late
    obtain ⟨superseded, ran, member⟩ := late.superseded
    have isPrefix : front <+: events := (List.prefix_append front [event]).trans late.within
    obtain ⟨sound, absent⟩ := superseded_absent isPrefix ran
      fun past event before frame next outputs late _ _ stepped =>
        (never past event before frame next outputs late stepped).1
    exact late.ignored sound (absent _ member) fun next outputs stepped =>
      (never front event sessions frame next outputs late stepped).1
  · intro ignored front event sessions frame next outputs late stepped
    obtain ⟨superseded, ran, member⟩ := late.superseded
    have isPrefix : front <+: events := (List.prefix_append front [event]).trans late.within
    obtain ⟨sound, absent⟩ := superseded_absent isPrefix ran
      fun past event before frame next outputs late sound unknown stepped inNext =>
        unknown ((late.mem_iff sound (ignored past event before frame late) stepped _).mp inNext)
    have same := late.mem_iff sound (ignored front event sessions frame late) stepped
    exact ⟨fun inNext => absent _ member ((same _).mp inNext), fun id inBefore =>
      (same id).mpr inBefore⟩

-- Sequence number 33 is above the threshold, so this late frame is held back.
example : (run (supersedingStep sampleBuild sampleConfig) ∅
    [sampleArrival 1 100 1 0, sampleArrival 2 200 1 1, sampleArrival 3 100 33 2]).map
      (fun result => result.1.keys) = some [(7, 200)] := by
  decide +kernel

/-! ### A replayed first frame -/

/-- Session 200 of device 7 replaces session 100.  A copy of the first frame of
session 100 then removes session 200 and brings session 100 back. -/
theorem replay_takes_over :
    ¬ NeverBack sampleBuild sampleConfig
      ([sampleArrival 1 100 1 0, sampleArrival 2 200 1 1] ++ [sampleArrival 1 100 1 2]) := by
  intro never
  have computed : (run (supersedingStep sampleBuild sampleConfig) ∅
      ([sampleArrival 1 100 1 0, sampleArrival 2 200 1 1] ++ [sampleArrival 1 100 1 2])).map
        (fun result => (result.1.keys, result.2)) = some ([(7, 100)], [(7, 100), (7, 200)]) := by
    decide +kernel
  obtain ⟨⟨last, superseded⟩, ran, isLast⟩ := Option.map_eq_some_iff.mp computed
  obtain ⟨sessions, before, emitted, ranFront, stepped, isSuperseded⟩ := run_snoc_inv ran
  have computedFront : (run (supersedingStep sampleBuild sampleConfig) ∅
      [sampleArrival 1 100 1 0, sampleArrival 2 200 1 1]).map Prod.snd = some [(7, 100)] := by
    decide +kernel
  rw [ranFront] at computedFront
  cases computedFront
  obtain ⟨⟨next, outputs⟩, isStep, isNext⟩ := Option.map_eq_some_iff.mp stepped
  cases isNext
  have late : LateFrame sampleBuild sampleConfig
      ([sampleArrival 1 100 1 0, sampleArrival 2 200 1 1] ++ [sampleArrival 1 100 1 2])
      [sampleArrival 1 100 1 0, sampleArrival 2 200 1 1] (sampleArrival 1 100 1 2) sessions
      (sampleFrame 100 1) :=
    ⟨List.prefix_rfl, ⟨_, _, _, rfl, reportKey, by decide +kernel⟩,
      ⟨_, ranFront, List.mem_singleton_self _⟩⟩
  refine (never _ _ sessions _ next outputs late isStep).1 ?_
  have isKeys := (Prod.mk.inj isLast).1
  change sessionKey (sampleFrame 100 1) ∈ next.keys
  rw [isKeys]
  exact List.mem_singleton_self _

end SmartFecTunnel.Tunnel
